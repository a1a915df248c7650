import Hplip.Lib.CInt
import Hplip.Ip.Pcx
import Mathlib.Tactic.IntervalCases

/-!
# Which rows a PCX file gives back

The runs are decoded to what was encoded. The rest of the coding was written for a `ULONG` of
four bytes: with eight, a bilevel row is inverted to about twice its length, and every second
quad of pixels of a row of 16 levels is left out.
-/

namespace Hplip.Ip.Pcx

open Checked LittleEndian CInt

variable {g : PcxInst} {buf inbuf outbuf l tail : List UInt8} {byt : UInt8} {w n k rounds : Nat}

/-! ## Runs -/

theorem run_eq (hk : k ≤ (l.takeWhile (· == byt)).length) :
    l = List.replicate k byt ++ l.drop k := by
  induction k generalizing l with
  | zero => rfl
  | succ k ih =>
    rcases l with _ | ⟨b, l⟩
    · exact absurd hk (Nat.not_succ_le_zero k)
    · by_cases hb : (b == byt) = true
      · rw [List.takeWhile_cons, if_pos hb, List.length_cons] at hk
        rw [List.replicate_succ, List.cons_append, List.drop_succ_cons, eq_of_beq hb,
          ← ih (Nat.le_of_succ_le_succ hk)]
      · rw [List.takeWhile_cons, if_neg hb] at hk
        exact absurd hk (Nat.not_succ_le_zero k)

theorem encodeRuns_cons (rounds : Nat) (byt : UInt8) (rest : List UInt8) :
    ∃ k, k < 63 ∧ byt :: rest = List.replicate (k + 1) byt ++ rest.drop k ∧
      encodeRuns (rounds + 1) (byt :: rest) =
        (if 1 < k + 1 ∨ 0xc0 ≤ byt then [UInt8.ofNat (k + 1) ||| 0xc0] else []) ++
          byt :: encodeRuns rounds (rest.drop k) := by
  have hrun : ∀ k, k ≤ (rest.takeWhile (· == byt)).length →
      byt :: rest = List.replicate (k + 1) byt ++ rest.drop k := by
    intro k hk
    rw [List.replicate_succ, List.cons_append, ← run_eq hk]
  by_cases hlong : 63 < (rest.takeWhile (· == byt)).length + 1
  · refine ⟨62, by decide, hrun 62 (by omega), ?_⟩
    rw [encodeRuns]
    simp only [if_pos hlong, Nat.reduceAdd, Nat.reduceSub]
  · refine ⟨(rest.takeWhile (· == byt)).length, by omega, hrun _ (Nat.le_refl _), ?_⟩
    rw [encodeRuns]
    simp only [if_neg hlong, Nat.add_sub_cancel]

theorem encodeRuns_length : (encodeRuns rounds l).length ≤ 2 * l.length := by
  induction rounds generalizing l with
  | zero => exact Nat.zero_le _
  | succ rounds ih =>
    rcases l with _ | ⟨byt, rest⟩
    · exact Nat.zero_le _
    · obtain ⟨k, -, hsplit, hcodes⟩ := encodeRuns_cons rounds byt rest
      have hlen : (byt :: rest).length = k + 1 + (rest.drop k).length := by
        rw [hsplit, List.length_append, List.length_replicate]
      have hrest := ih (l := rest.drop k)
      rw [hcodes, hlen, List.length_append, List.length_cons]
      split
      · rw [List.length_singleton]
        lia
      · rw [List.length_nil]
        lia

theorem decodeRuns_literal (h : byt < 0xc0) (codes : List UInt8) (left : Nat) :
    decodeRuns (byt :: codes) (left + 1) =
      (decodeRuns codes left).map fun p => (byt :: p.1, p.2 + 1) := by
  rcases codes with _ | ⟨val, codes⟩
  · rw [decodeRuns, require_pos h]
    rfl
  · rw [decodeRuns, if_pos h]
    rfl

theorem runCode_bits : ∀ k < 63,
    ¬ (UInt8.ofNat (k + 1) ||| 0xc0 : UInt8) < 0xc0 ∧
      ((UInt8.ofNat (k + 1) ||| 0xc0 : UInt8) &&& 0x3f).toNat = k + 1 := by
  decide

theorem decodeRuns_run (hk : k < 63) (codes : List UInt8) {left : Nat} (hleft : k ≤ left) :
    decodeRuns ((UInt8.ofNat (k + 1) ||| 0xc0) :: byt :: codes) (left + 1) =
      (decodeRuns codes (left - k)).map fun p => (List.replicate (k + 1) byt ++ p.1, p.2 + 2) := by
  obtain ⟨hcode, hrun⟩ := runCode_bits k hk
  rw [decodeRuns, if_neg hcode]
  simp only [hrun]
  rw [if_neg (by lia), show left + 1 - (k + 1) = left - k by lia]
  rfl

theorem decodeRuns_zero (codes : List UInt8) : decodeRuns codes 0 = .ok ([], 0) := by
  rw [decodeRuns]

/-- **Runs come back**, and no more is read than was written. -/
theorem decodeRuns_encodeRuns (hl : l.length ≤ rounds) (tail : List UInt8) :
    decodeRuns (encodeRuns rounds l ++ tail) l.length = .ok (l, (encodeRuns rounds l).length) := by
  induction rounds generalizing l with
  | zero =>
    obtain rfl := List.length_eq_zero_iff.mp (Nat.le_zero.mp hl)
    exact decodeRuns_zero _
  | succ rounds ih =>
    rcases l with _ | ⟨byt, rest⟩
    · exact decodeRuns_zero _
    · obtain ⟨k, hk, hsplit, hcodes⟩ := encodeRuns_cons rounds byt rest
      have hrest : (rest.drop k).length = rest.length - k := List.length_drop
      have hlen : (byt :: rest).length = k + 1 + (rest.drop k).length := by
        rw [hsplit, List.length_append, List.length_replicate]
      rw [List.length_cons] at hl hlen
      have hih := ih (l := rest.drop k) (by lia)
      rw [hcodes]
      split
      · rw [List.length_cons, List.singleton_append, List.cons_append, List.cons_append,
          decodeRuns_run hk _ (by lia), ← hrest, hih]
        show Except.ok (List.replicate (k + 1) byt ++ rest.drop k, _) = _
        rw [← hsplit]
        rfl
      · have hone : k = 0 := by lia
        have hsmall : byt < 0xc0 := by
          rw [UInt8.lt_iff_toNat_lt]
          have hnot : ¬ (0xc0 : UInt8) ≤ byt := fun h => by simp_all
          rw [UInt8.le_iff_toNat_le] at hnot
          lia
        subst hone
        rw [List.length_cons, List.nil_append, List.cons_append, decodeRuns_literal hsmall]
        rw [List.drop_zero] at hih ⊢
        rw [hih]
        rfl

theorem encodeBuffer_ok (hin : g.planeBytes ≤ inbuf.length) :
    encodeBuffer g inbuf (g.codedBytes + spareBytes)
      = .ok (encodeRuns g.planeBytes (inbuf.take g.planeBytes)) := by
  have hlen : (encodeRuns g.planeBytes (inbuf.take g.planeBytes)).length
      ≤ 2 * (inbuf.take g.planeBytes).length := encodeRuns_length
  have htake : (inbuf.take g.planeBytes).length = g.planeBytes := List.length_take_of_le hin
  have hcoded : g.codedBytes = 2 * g.planeBytes := by
    rw [PcxInst.codedBytes, PcxInst.planeBytes, Nat.mul_comm, Nat.mul_comm g.iBitsPerPixel]
  rw [encodeBuffer, require_pos hin]
  show (require _ _ >>= _) = _
  rw [require_pos (by lia)]
  rfl

theorem decodeBuffer_ok (tail : List UInt8) (hin : g.planeBytes ≤ inbuf.length)
    (hout : g.planeBytes ≤ outbuf.length) :
    decodeBuffer g (encodeRuns g.planeBytes (inbuf.take g.planeBytes) ++ tail) outbuf
      = .ok ((encodeRuns g.planeBytes (inbuf.take g.planeBytes)).length,
          inbuf.take g.planeBytes ++ outbuf.drop g.planeBytes) := by
  have htake : (inbuf.take g.planeBytes).length = g.planeBytes := List.length_take_of_le hin
  have hruns := decodeRuns_encodeRuns (Nat.le_of_eq htake) tail
  rw [htake] at hruns
  rw [decodeBuffer, hruns]
  show (require _ _ >>= _) = _
  rw [htake, require_pos hout]
  rfl

/-! ## The inversion -/

def flipped (k : Nat) (buf : List UInt8) : List UInt8 := (buf.take k).map (~~~ ·) ++ buf.drop k

theorem flipped_length : (flipped k buf).length = buf.length := by
  rw [flipped, List.length_append, List.length_map, List.length_take, List.length_drop]
  lia

theorem map_not_not (l : List UInt8) : (l.map (~~~ ·)).map (~~~ ·) = l := by
  rw [List.map_map]
  have hid : ((~~~ ·) ∘ (~~~ ·) : UInt8 → UInt8) = id := by
    funext b
    exact UInt8.not_not
  rw [hid, List.map_id]

theorem take_flipped (h : n ≤ k) : (flipped k buf).take n = (buf.take n).map (~~~ ·) := by
  rw [flipped, List.take_append, ← List.map_take, List.take_take, Nat.min_eq_left h]
  rw [List.length_map, List.length_take]
  rcases Nat.le_total k buf.length with hle | hle
  · rw [Nat.min_eq_left hle, Nat.sub_eq_zero_of_le h, List.take_zero, List.append_nil]
  · rw [List.drop_eq_nil_of_le hle, List.take_nil, List.append_nil]

theorem flipped_flipped : flipped k (flipped k buf) = buf := by
  rw [flipped, take_flipped (Nat.le_refl k), map_not_not]
  rcases Nat.le_total k buf.length with hle | hle
  · have hlen : ((buf.take k).map (~~~ · : UInt8 → UInt8)).length = k := by
      rw [List.length_map, List.length_take_of_le hle]
    rw [flipped, List.drop_left' hlen, List.take_append_drop]
  · have hlen : (flipped k buf).length ≤ k := by rwa [flipped_length]
    rw [List.drop_eq_nil_of_le hlen, List.append_nil, List.take_of_length_le hle]

theorem flipPixels_ok (h : ulongBytes * ((g.uBytesPerRawRow + 3) / 4) ≤ buf.length) :
    flipPixels g buf = .ok (flipped (ulongBytes * ((g.uBytesPerRawRow + 3) / 4)) buf) := by
  rw [flipPixels, require_pos h]
  rfl

theorem flipPixels_outside (h : buf.length < ulongBytes * ((g.uBytesPerRawRow + 3) / 4)) :
    flipPixels g buf = .error .outside := by
  rw [flipPixels, require_neg (Nat.not_le.mpr h)]
  rfl

/-! ## The bits of four pixels -/

def packed (a₀ a₁ a₂ a₃ b₀ b₁ b₂ b₃ : Bool) : UInt8 :=
  let bit (a : Bool) (b : UInt8) : UInt8 := if a then b else 0
  bit a₀ 0x80 ||| bit a₁ 0x40 ||| bit a₂ 0x20 ||| bit a₃ 0x10 ||| bit b₀ 0x08 ||| bit b₁ 0x04 |||
    bit b₂ 0x02 ||| bit b₃ 0x01

def spread (a : Nat → Bool) : Nat :=
  (a 0).toNat * 0x10 + (a 1).toNat * 0x1000 + (a 2).toNat * 0x100000 + (a 3).toNat * 0x10000000

theorem bit_ne_zero {quad mask nib m : Nat} (h : mask &&& nib = 2 ^ m) :
    ((quad &&& mask) &&& nib ≠ 0) ↔ quad.testBit m = true := by
  rw [Nat.and_assoc, h, Nat.and_two_pow]
  cases quad.testBit m with
  | false => simp
  | true => simp

def planeMask (k : Nat) : Nat := 0x10101010 <<< k

theorem masks_eq : masks = [planeMask 0, planeMask 1, planeMask 2, planeMask 3] := rfl

theorem planeMask_nibs (hk : k < 4) : planeMask k &&& nib0 = 2 ^ (4 + k) ∧
    planeMask k &&& nib1 = 2 ^ (12 + k) ∧ planeMask k &&& nib2 = 2 ^ (20 + k) ∧
      planeMask k &&& nib3 = 2 ^ (28 + k) := by
  have hall : ∀ k < 4, planeMask k &&& nib0 = 2 ^ (4 + k) ∧
      planeMask k &&& nib1 = 2 ^ (12 + k) ∧ planeMask k &&& nib2 = 2 ^ (20 + k) ∧
        planeMask k &&& nib3 = 2 ^ (28 + k) := by decide
  exact hall k hk

theorem planeByte_eq (hk : k < 4) (first second : Nat) :
    planeByte (planeMask k) first second =
      packed (first.testBit (4 + k)) (first.testBit (12 + k)) (first.testBit (20 + k))
        (first.testBit (28 + k)) (second.testBit (4 + k)) (second.testBit (12 + k))
        (second.testBit (20 + k)) (second.testBit (28 + k)) := by
  obtain ⟨h₀, h₁, h₂, h₃⟩ := planeMask_nibs hk
  simp only [planeByte, packed, bit_ne_zero h₀, bit_ne_zero h₁, bit_ne_zero h₂, bit_ne_zero h₃]

theorem unscrambled_packed : ∀ a₀ a₁ a₂ a₃ b₀ b₁ b₂ b₃ : Bool,
    unscrambled (packed a₀ a₁ a₂ a₃ b₀ b₁ b₂ b₃ >>> 4) =
      a₀.toNat * 0x10 + a₁.toNat * 0x1000 + a₂.toNat * 0x100000 + a₃.toNat * 0x10000000 := by
  decide

theorem spread_bits : ∀ a₀ a₁ a₂ a₃ : Bool, ∀ m < 32,
    (a₀.toNat * 0x10 + a₁.toNat * 0x1000 + a₂.toNat * 0x100000 + a₃.toNat * 0x10000000).testBit m
      = if m % 8 = 4 then [a₀, a₁, a₂, a₃].getD (m / 8) false else false := by
  decide +kernel

def merged (a : Nat → Nat → Bool) : Nat :=
  ((spread (a 0) ||| spread (a 1) <<< 1) ||| spread (a 2) <<< 2) ||| spread (a 3) <<< 3

theorem merged_bit (a : Nat → Nat → Bool) {j t : Nat} (hj : j < 4) (ht : t < 8) :
    (merged a).testBit (8 * j + t) = (decide (4 ≤ t) && a (t - 4) j) := by
  have hspread : ∀ k, ∀ m < 32, (spread (a k)).testBit m
      = if m % 8 = 4 then [a k 0, a k 1, a k 2, a k 3].getD (m / 8) false else false :=
    fun k => spread_bits (a k 0) (a k 1) (a k 2) (a k 3)
  simp only [merged, Nat.testBit_or, Nat.testBit_shiftLeft]
  rw [hspread 0 _ (by lia), hspread 1 _ (by lia), hspread 2 _ (by lia),
    hspread 3 _ (by lia)]
  interval_cases j <;> interval_cases t <;> simp

theorem byte_eq_of_bits {x : UInt8} (h : ∀ t < 8, n.testBit t = x.toNat.testBit t) :
    UInt8.ofNat n = x := by
  apply UInt8.toNat_inj.mp
  rw [UInt8.toNat_ofNat']
  refine Nat.eq_of_testBit_eq fun t => ?_
  rw [Nat.testBit_mod_two_pow]
  by_cases ht : t < 8
  · rw [decide_eq_true ht, Bool.true_and, h t ht]
  · have hx : x.toNat.testBit t = false :=
      Nat.testBit_lt_two_pow (Nat.lt_of_lt_of_le x.toNat_lt (Nat.pow_le_pow_right (by decide)
        (Nat.not_lt.mp ht)))
    rw [decide_eq_false ht, Bool.false_and, hx]

theorem upper_bits : ∀ t < 8, (0xf0 : Nat).testBit t = decide (4 ≤ t) := by
  decide

theorem merged_byte {q j : Nat} {x : UInt8} (hj : j < 4)
    (hx : ∀ t < 8, q.testBit (8 * j + t) = x.toNat.testBit t) :
    UInt8.ofNat (merged (fun k i => q.testBit (8 * i + 4 + k)) / 256 ^ j) = x &&& 0xf0 := by
  refine byte_eq_of_bits fun t ht => ?_
  rw [show (256 : Nat) = 2 ^ 8 from rfl, ← Nat.pow_mul, Nat.testBit_div_two_pow, Nat.add_comm,
    merged_bit _ hj ht, UInt8.toNat_and, Nat.testBit_and, show (0xf0 : UInt8).toNat = 0xf0 from rfl,
    upper_bits t ht]
  by_cases h4 : 4 ≤ t
  · rw [decide_eq_true h4, Bool.true_and, Bool.and_true, ← hx t ht,
      show 8 * j + 4 + (t - 4) = 8 * j + t by lia]
  · rw [decide_eq_false h4, Bool.false_and, Bool.and_false]

/-! ## Words -/

theorem readQuad_ok {i : Nat} (h : i + 8 ≤ buf.length) :
    readQuad buf i = .ok (littleEndian buf i 8) := by
  rw [readQuad, require_pos h]
  rfl

theorem readQuad_outside {i : Nat} (h : buf.length < i + 8) :
    readQuad buf i = .error .outside := by
  rw [readQuad, require_neg (Nat.not_le.mpr h)]
  rfl

theorem writeQuad_ok {i v : Nat} (h : i + 8 ≤ buf.length) :
    writeQuad buf i v = .ok (buf.take i ++ (bytes 8 v ++ buf.drop (i + 8))) := by
  rw [writeQuad, require_pos h]
  rfl

theorem combinePlane_one (first : Bool) (shift : Nat) (b : UInt8) (h : outbuf.length = 16) :
    ∃ rest, rest.length = 8 ∧ combinePlane first shift [b] outbuf 0 =
      .ok (bytes 8 (if first then unscrambled (b >>> 4) <<< shift
        else littleEndian outbuf 0 8 ||| unscrambled (b >>> 4) <<< shift) ++ rest) := by
  obtain ⟨v, hv⟩ : ∃ v, v = (if first then unscrambled (b >>> 4) <<< shift
    else littleEndian outbuf 0 8 ||| unscrambled (b >>> 4) <<< shift) := ⟨_, rfl⟩
  obtain ⟨out₁, hout₁⟩ : ∃ out₁, out₁ = bytes 8 v ++ outbuf.drop 8 := ⟨_, rfl⟩
  have hlen₁ : out₁.length = 16 := by
    rw [hout₁, List.length_append, length_bytes, List.length_drop, h]
  have hfirst : mergeQuad first outbuf 0 (unscrambled (b >>> 4) <<< shift) = .ok out₁ := by
    rw [mergeQuad, readQuad_ok (by omega)]
    show writeQuad _ _ _ = _
    rw [writeQuad_ok (by omega), ← hv, hout₁]
    rfl
  have hsecond : ∀ x, ∃ y, mergeQuad first out₁ 8 x = .ok (bytes 8 v ++ bytes 8 y) := by
    intro x
    refine ⟨if first then x else littleEndian out₁ 8 8 ||| x, ?_⟩
    have htake : out₁.take 8 = bytes 8 v := by
      rw [hout₁, List.take_left' (length_bytes 8 v)]
    have hdrop : out₁.drop (8 + 8) = [] := List.drop_eq_nil_of_le (Nat.le_of_eq hlen₁)
    rw [mergeQuad, readQuad_ok (by omega)]
    show writeQuad _ _ _ = _
    rw [writeQuad_ok (by omega), htake, hdrop, List.append_nil]
  obtain ⟨y, hy⟩ := hsecond (unscrambled (b &&& 15) <<< shift)
  refine ⟨bytes 8 y, length_bytes 8 y, ?_⟩
  rw [combinePlane, hfirst]
  show (mergeQuad first out₁ 8 (unscrambled (b &&& 15) <<< shift) >>= _) = _
  rw [hy, ← hv]
  rfl

theorem separatePlane_four (h : inbuf.length = 16) (mask : Nat) :
    separatePlane inbuf mask 4 4 0 =
      .ok [planeByte mask (littleEndian inbuf 0 8) (littleEndian inbuf 8 8)] := by
  have hrest : separatePlane inbuf mask 4 3 (0 + 2 * ulongBytes) = .ok [] := by
    rw [separatePlane, if_neg (by decide)]
  rw [separatePlane, if_pos (by decide), readQuad_ok (by omega)]
  show (readQuad inbuf 8 >>= _) = _
  rw [readQuad_ok (by omega), hrest]
  rfl

def quadOf (q : Nat) : Nat := merged fun k j => q.testBit (8 * j + 4 + k)

theorem unscrambled_planeByte (hk : k < 4) (q q' : Nat) :
    unscrambled (planeByte (planeMask k) q q' >>> 4) = spread fun j => q.testBit (8 * j + 4 + k) := by
  rw [planeByte_eq hk, unscrambled_packed]
  rfl

theorem spread_lt (a : Nat → Bool) : spread a < 2 ^ 29 := by
  have hbit : ∀ b : Bool, b.toNat ≤ 1 := Bool.toNat_le
  have h₀ := hbit (a 0)
  have h₁ := hbit (a 1)
  have h₂ := hbit (a 2)
  have h₃ := hbit (a 3)
  rw [spread]
  lia

/-! ## Round trips -/

inductive Depth
  | bilevel
  | grey

/-- Every row of so many pixels comes back: in buffers of the sizes that are asked for, with what
`IP_MEM_ALLOC` adds to them, whatever they hold besides the row, the encoder returns and leaves
the row alone; the decoder reads what was written, whatever comes behind it, and gives the row. -/
def RoundTrips (w : Nat) : Depth → Prop
  | .bilevel =>
    let g := getActualTraits 1 w
    ∀ inbuf outbuf : List UInt8, inbuf.length = g.uBytesPerRawRow + spareBytes →
      outbuf.length = g.uBytesPerRawRow + spareBytes →
      ∃ codes inbuf', encode1 g inbuf (g.codedBytes + spareBytes) = .ok (codes, inbuf') ∧
        inbuf' = inbuf ∧
        ∀ tail, (codes ++ tail).length = g.codedBytes + spareBytes →
          ∃ outbuf', decode1 g (codes ++ tail) outbuf = .ok (codes.length, outbuf') ∧
            outbuf'.take g.uBytesPerRawRow = inbuf.take g.uBytesPerRawRow
  | .grey =>
    let g := getActualTraits 4 w
    ∀ inbuf outbuf planes planes' : List UInt8, inbuf.length = g.uBytesPerRawRow + spareBytes →
      outbuf.length = g.uBytesPerRawRow + spareBytes →
      planes.length = g.planeBytes + spareBytes → planes'.length = g.planeBytes + spareBytes →
      ∃ codes planes₁, encode4 g inbuf planes (g.codedBytes + spareBytes) = .ok (codes, planes₁) ∧
        ∀ tail, (codes ++ tail).length = g.codedBytes + spareBytes →
          ∃ outbuf', decode4 g (codes ++ tail) planes' outbuf = .ok (codes.length, outbuf') ∧
            outbuf'.take g.uBytesPerRawRow = (inbuf.take g.uBytesPerRawRow).map (· &&& 0xf0)

/-- Rows that come back: bilevel ones of up to 8 bytes and of 12, of 16 levels those of four
pixels. -/
def FitsLongs (w : Nat) : Depth → Prop
  | .bilevel => w ≤ 64 ∨ 88 < w ∧ w ≤ 96
  | .grey => w = 4

theorem bilevel_traits (w : Nat) : (getActualTraits 1 w).uBytesPerRawRow = (w + 7) / 8 ∧
    (getActualTraits 1 w).planeBytes = (w + 7) / 8 :=
  ⟨rfl, Nat.mul_one _⟩

theorem bilevel_roundTrips (h : FitsLongs w .bilevel) : RoundTrips w .bilevel := by
  intro inbuf outbuf hin hout
  obtain ⟨hraw, hplane⟩ := bilevel_traits w
  generalize getActualTraits 1 w = g at hraw hplane hin hout ⊢
  obtain ⟨n, hn⟩ : ∃ n, n = (w + 7) / 8 := ⟨_, rfl⟩
  obtain ⟨q, hq⟩ : ∃ q, q = 8 * ((n + 3) / 4) := ⟨_, rfl⟩
  rw [← hn] at hraw hplane
  rw [hraw] at hin hout ⊢
  have hroom : n ≤ q ∧ q ≤ n + 12 := by
    have h : w ≤ 64 ∨ 88 < w ∧ w ≤ 96 := h
    lia
  have hin : inbuf.length = n + 12 := hin
  have hout : outbuf.length = n + 12 := hout
  have hflip : ∀ buf : List UInt8, buf.length = n + 12 →
      flipPixels g buf = .ok (flipped q buf) := by
    intro buf hbuf
    have hk : ulongBytes * ((g.uBytesPerRawRow + 3) / 4) = q := by rw [hraw, hq]
    rw [flipPixels_ok (by rw [hk, hbuf]; exact hroom.2), hk]
  have hflipped : (flipped q inbuf).length = n + 12 := by rw [flipped_length, hin]
  have hencode : encode1 g inbuf (g.codedBytes + spareBytes)
      = .ok (encodeRuns g.planeBytes ((flipped q inbuf).take g.planeBytes), inbuf) := by
    rw [encode1, hflip inbuf hin]
    show (encodeBuffer g (flipped q inbuf) _ >>= _) = _
    rw [encodeBuffer_ok (by lia)]
    show (flipPixels g (flipped q inbuf) >>= _) = _
    rw [hflip _ hflipped, flipped_flipped]
    rfl
  refine ⟨_, _, hencode, rfl, fun tail _ => ?_⟩
  have hdecode := decodeBuffer_ok tail (by lia : g.planeBytes ≤ (flipped q inbuf).length)
    (by lia : g.planeBytes ≤ outbuf.length)
  obtain ⟨out, hdef⟩ : ∃ out, out
      = (flipped q inbuf).take g.planeBytes ++ outbuf.drop g.planeBytes := ⟨_, rfl⟩
  have htake : ((flipped q inbuf).take g.planeBytes).length = n := by
    rw [List.length_take]
    lia
  have hlen : out.length = n + 12 := by
    rw [hdef, List.length_append, htake, List.length_drop]
    lia
  rw [← hdef] at hdecode
  refine ⟨flipped q out, ?_, ?_⟩
  · rw [decode1, hdecode]
    show (flipPixels g out >>= _) = _
    rw [hflip out hlen]
    rfl
  · rw [take_flipped hroom.1, hdef, List.take_left' htake, hplane, take_flipped hroom.1, map_not_not]

theorem bilevel_outside (h : ¬ FitsLongs w .bilevel) : ¬ RoundTrips w .bilevel := by
  intro hall
  obtain ⟨hraw, -⟩ := bilevel_traits w
  have hzeros : (List.replicate ((w + 7) / 8 + spareBytes) (0 : UInt8)).length
      = (w + 7) / 8 + spareBytes := List.length_replicate
  obtain ⟨codes, inbuf', hencode, -⟩ := hall _ _ hzeros hzeros
  have h : ¬ (w ≤ 64 ∨ 88 < w ∧ w ≤ 96) := h
  have hout : (List.replicate ((w + 7) / 8 + spareBytes) (0 : UInt8)).length
      < ulongBytes * (((getActualTraits 1 w).uBytesPerRawRow + 3) / 4) := by
    rw [hzeros, hraw]
    show (w + 7) / 8 + 12 < 8 * (((w + 7) / 8 + 3) / 4)
    lia
  rw [encode1, flipPixels_outside hout] at hencode
  exact nomatch hencode

/-! ### 16 levels -/

theorem planes_four (h : inbuf.length = 16) :
    separatePlanes inbuf 4 masks = .ok ([0, 1, 2, 3].map fun k =>
      planeByte (planeMask k) (littleEndian inbuf 0 8) (littleEndian inbuf 8 8)) := by
  rw [masks_eq]
  simp only [separatePlanes, separatePlane_four h]
  rfl

theorem combinePlanes_four {b₀ b₁ b₂ b₃ : UInt8} {q p : Nat} (h : outbuf.length = 16)
    (h₀ : b₀ = planeByte (planeMask 0) q p) (h₁ : b₁ = planeByte (planeMask 1) q p)
    (h₂ : b₂ = planeByte (planeMask 2) q p) (h₃ : b₃ = planeByte (planeMask 3) q p) :
    ∃ out₁ out₂ out₃ out₄ rest, combinePlane true 0 [b₀] outbuf 0 = .ok out₁ ∧
      combinePlane false 1 [b₁] out₁ 0 = .ok out₂ ∧ combinePlane false 2 [b₂] out₂ 0 = .ok out₃ ∧
      combinePlane false 3 [b₃] out₃ 0 = .ok out₄ ∧ out₄ = bytes 8 (quadOf q) ++ rest := by
  have hlen : ∀ v (rest : List UInt8), rest.length = 8 → (bytes 8 v ++ rest).length = 16 := by
    intro v rest hrest
    rw [List.length_append, length_bytes, hrest]
  have hspread : ∀ k, spread (fun j => q.testBit (8 * j + 4 + k)) < 2 ^ 29 := fun k => spread_lt _
  have hshift : ∀ k < 4, spread (fun j => q.testBit (8 * j + 4 + k)) <<< k < 2 ^ 32 := by
    intro k hk
    rw [Nat.shiftLeft_eq]
    have hk : 2 ^ k ≤ 2 ^ 3 := Nat.pow_le_pow_right (by decide) (by omega)
    exact Nat.lt_of_lt_of_le (Nat.mul_lt_mul_of_lt_of_le (hspread k) hk (by decide)) (by decide)
  have hnarrow : ∀ v, v < 2 ^ 32 → v < 256 ^ 8 := fun v hv => Nat.lt_trans hv (by decide)
  obtain ⟨r₁, hr₁, hc₁⟩ := combinePlane_one true 0 b₀ h
  rw [if_pos rfl, h₀, unscrambled_planeByte (by decide)] at hc₁
  have hv₁ := hshift 0 (by decide)
  obtain ⟨r₂, hr₂, hc₂⟩ := combinePlane_one false 1 b₁ (hlen _ r₁ hr₁)
  rw [if_neg Bool.false_ne_true, littleEndian_bytes (hnarrow _ hv₁), h₁,
    unscrambled_planeByte (by decide)] at hc₂
  have hv₂ := Nat.or_lt_two_pow hv₁ (hshift 1 (by decide))
  obtain ⟨r₃, hr₃, hc₃⟩ := combinePlane_one false 2 b₂ (hlen _ r₂ hr₂)
  rw [if_neg Bool.false_ne_true, littleEndian_bytes (hnarrow _ hv₂), h₂,
    unscrambled_planeByte (by decide)] at hc₃
  have hv₃ := Nat.or_lt_two_pow hv₂ (hshift 2 (by decide))
  obtain ⟨r₄, hr₄, hc₄⟩ := combinePlane_one false 3 b₃ (hlen _ r₃ hr₃)
  rw [if_neg Bool.false_ne_true, littleEndian_bytes (hnarrow _ hv₃), h₃,
    unscrambled_planeByte (by decide)] at hc₄
  exact ⟨_, _, _, _, r₄, h₀ ▸ hc₁, h₁ ▸ hc₂, h₂ ▸ hc₃, h₃ ▸ hc₄, rfl⟩

theorem take_quadOf (h : inbuf.length = 16) (rest : List UInt8) :
    (bytes 8 (quadOf (littleEndian inbuf 0 8)) ++ rest).take 4
      = (inbuf.take 4).map (· &&& 0xf0) := by
  obtain ⟨x₀, x₁, x₂, x₃, xs, rfl⟩ : ∃ x₀ x₁ x₂ x₃ xs, inbuf = x₀ :: x₁ :: x₂ :: x₃ :: xs := by
    rcases inbuf with _ | ⟨x₀, _ | ⟨x₁, _ | ⟨x₂, _ | ⟨x₃, xs⟩⟩⟩⟩
    · exact nomatch h
    · exact nomatch h
    · exact nomatch h
    · exact nomatch h
    · exact ⟨x₀, x₁, x₂, x₃, xs, rfl⟩
  obtain ⟨buf, hbuf⟩ : ∃ buf, buf = x₀ :: x₁ :: x₂ :: x₃ :: xs := ⟨_, rfl⟩
  have hbits : ∀ j < 4, ∀ t < 8, (littleEndian buf 0 8).testBit (8 * j + t)
      = (buf.getD j 0).toNat.testBit t := by
    intro j hj t ht
    rw [testBit_littleEndian (by omega) ht, Nat.zero_add]
    rfl
  have hbyte : ∀ j < 4, UInt8.ofNat (quadOf (littleEndian buf 0 8) / 256 ^ j)
      = buf.getD j 0 &&& 0xf0 := fun j hj => merged_byte hj (hbits j hj)
  have h₀ := hbyte 0 (by decide)
  have h₁ := hbyte 1 (by decide)
  have h₂ := hbyte 2 (by decide)
  have h₃ := hbyte 3 (by decide)
  rw [← hbuf]
  generalize quadOf (littleEndian buf 0 8) = v at h₀ h₁ h₂ h₃
  have htake : (bytes 8 v ++ rest).take 4 = [UInt8.ofNat (v / 256 ^ 0), UInt8.ofNat (v / 256 ^ 1),
      UInt8.ofNat (v / 256 ^ 2), UInt8.ofNat (v / 256 ^ 3)] := by
    simp only [bytes, List.cons_append, List.take_succ_cons, List.take_zero, Nat.div_div_eq_div_mul,
      Nat.pow_zero, Nat.div_one, Nat.pow_one, Nat.reduceMul, Nat.reducePow]
  rw [htake, h₀, h₁, h₂, h₃, hbuf]
  rfl

theorem grey_roundTrips : RoundTrips 4 .grey := by
  intro inbuf outbuf planes planes' hin hout hplanes hplanes'
  have hin : inbuf.length = 16 := hin
  have hout : outbuf.length = 16 := hout
  have hplanes : planes.length = 16 := hplanes
  have hplanes' : planes'.length = 16 := hplanes'
  obtain ⟨g, hg⟩ : ∃ g, g = getActualTraits 4 4 := ⟨_, rfl⟩
  have hbytes : g.planeBytes = 4 := by rw [hg]; rfl
  have hraw : g.uBytesPerRawRow = 4 := by rw [hg]; rfl
  have hplane : g.uBytesPerPlane = 1 := by rw [hg]; rfl
  rw [← hg]
  obtain ⟨written, hwritten⟩ : ∃ written, written = [0, 1, 2, 3].map fun k =>
      planeByte (planeMask k) (littleEndian inbuf 0 8) (littleEndian inbuf 8 8) := ⟨_, rfl⟩
  have hlen : written.length = 4 := by rw [hwritten]; rfl
  obtain ⟨planes₁, hplanes₁⟩ : ∃ planes₁, planes₁ = written ++ planes.drop 4 := ⟨_, rfl⟩
  have hlen₁ : planes₁.length = 16 := by
    rw [hplanes₁, List.length_append, hlen, List.length_drop, hplanes]
  have htake : planes₁.take g.planeBytes = written := by
    rw [hbytes, hplanes₁, List.take_left' hlen]
  have hencode : encode4 g inbuf planes (g.codedBytes + spareBytes)
      = .ok (encodeRuns g.planeBytes (planes₁.take g.planeBytes), planes₁) := by
    rw [encode4, hraw, planes_four hin, ← hwritten]
    show (require _ _ >>= _) = _
    rw [hlen, require_pos (by lia)]
    show (encodeBuffer g (written ++ planes.drop 4) _ >>= _) = _
    rw [← hplanes₁, encodeBuffer_ok (by lia)]
    rfl
  refine ⟨_, _, hencode, fun tail _ => ?_⟩
  have hdecode := decodeBuffer_ok tail
    (by lia : g.planeBytes ≤ planes₁.length) (by lia : g.planeBytes ≤ planes'.length)
  obtain ⟨out₁, out₂, out₃, out₄, rest, hc₁, hc₂, hc₃, hc₄, rfl⟩ := combinePlanes_four
    (q := littleEndian inbuf 0 8) (p := littleEndian inbuf 8 8) hout rfl rfl rfl rfl
  refine ⟨_, ?_, by rw [hraw]; exact take_quadOf hin rest⟩
  have hbyte : ∀ k < 4, ((written ++ planes'.drop g.planeBytes).drop
      (k * g.uBytesPerPlane)).take g.uBytesPerPlane
        = [planeByte (planeMask k) (littleEndian inbuf 0 8) (littleEndian inbuf 8 8)] := by
    intro k hk
    rw [hplane, hwritten]
    interval_cases k <;> rfl
  rw [decode4, hdecode, htake]
  dsimp only [bind, Except.bind]
  rw [hbyte 0 (by decide), hc₁]
  dsimp only
  rw [hbyte 1 (by decide), hc₂]
  dsimp only
  rw [hbyte 2 (by decide), hc₃]
  dsimp only
  rw [hbyte 3 (by decide), hc₄]
  rfl

theorem planeByte_congr {mask q q' p p' : Nat} (hq : q &&& mask = q' &&& mask)
    (hp : p &&& mask = p' &&& mask) : planeByte mask q p = planeByte mask q' p' := by
  simp only [planeByte, hq, hp]

theorem readQuad_congr {mask i : Nat} (hlen : inbuf.length = outbuf.length)
    (h : littleEndian inbuf i 8 &&& mask = littleEndian outbuf i 8 &&& mask) :
    (readQuad inbuf i = .error .outside ∧ readQuad outbuf i = .error .outside) ∨
      ∃ q q', readQuad inbuf i = .ok q ∧ readQuad outbuf i = .ok q' ∧ q &&& mask = q' &&& mask := by
  rcases Nat.lt_or_ge inbuf.length (i + 8) with hout | hin
  · exact .inl ⟨readQuad_outside hout, readQuad_outside (hlen ▸ hout)⟩
  · exact .inr ⟨_, _, readQuad_ok hin, readQuad_ok (hlen ▸ hin), h⟩

theorem separatePlane_congr {mask raw : Nat} (hlen : inbuf.length = outbuf.length)
    (h : ∀ i, i % 8 = 0 → littleEndian inbuf i 8 &&& mask = littleEndian outbuf i 8 &&& mask)
    {i : Nat} (hi : i % 8 = 0) :
    separatePlane inbuf mask raw rounds i = separatePlane outbuf mask raw rounds i := by
  induction rounds generalizing i with
  | zero => rfl
  | succ rounds ih =>
    have hsecond : (i + ulongBytes) % 8 = 0 := by
      show (i + 8) % 8 = 0
      lia
    have hnext : (i + 2 * ulongBytes) % 8 = 0 := by
      show (i + 16) % 8 = 0
      lia
    rw [separatePlane, separatePlane, ih hnext]
    by_cases hless : i < raw
    · rw [if_pos hless, if_pos hless]
      rcases readQuad_congr hlen (h i hi) with ⟨hr, hr'⟩ | ⟨q, q', hr, hr', hq⟩
      · rw [hr, hr']
        rfl
      · rw [hr, hr']
        rcases readQuad_congr hlen (h _ hsecond) with ⟨hs, hs'⟩ | ⟨p, p', hs, hs', hp⟩
        · rw [hs, hs']
          rfl
        · rw [hs, hs']
          dsimp only [bind, Except.bind]
          rw [planeByte_congr hq hp]
    · rw [if_neg hless, if_neg hless]

def fifthPixel (n : Nat) (b : UInt8) : List UInt8 :=
  [0, 0, 0, 0, b] ++ List.replicate (n - 5) 0

theorem fifthPixel_byteAt {b : UInt8} {i : Nat} (hi : i ≠ 4) : byteAt (fifthPixel n b) i = 0 := by
  rw [byteAt, fifthPixel]
  rcases Nat.lt_or_ge i 5 with hlt | hge
  · interval_cases i
    · rfl
    · rfl
    · rfl
    · rfl
    · exact absurd rfl hi
  · rw [List.getD_append_right _ _ _ _ hge, List.getD_eq_getElem?_getD, List.getElem?_replicate]
    split
    · rfl
    · rfl

theorem fifthPixel_masked {mask : Nat} (hmask : mask ∈ masks) (b : UInt8) {i : Nat}
    (hi : i % 8 = 0) : littleEndian (fifthPixel n b) i 8 &&& mask
      = littleEndian (fifthPixel n 0) i 8 &&& mask := by
  have hsmall : mask < 2 ^ 32 := by
    have hall : ∀ m ∈ masks, m < 2 ^ 32 := by decide
    exact hall mask hmask
  rcases Nat.eq_zero_or_pos i with rfl | hpos
  · have hfirst : ∀ b : UInt8, littleEndian (fifthPixel n b) 0 8 &&& mask = 0 := by
      intro b
      have hquad : littleEndian (fifthPixel n b) 0 8 = 2 ^ 32 * b.toNat := by
        have hother : ∀ {j}, j ≠ 4 → byteAt (fifthPixel n b) j = 0 := fifthPixel_byteAt
        have hfour : byteAt (fifthPixel n b) 4 = b.toNat := rfl
        simp only [littleEndian, Nat.zero_add, Nat.reduceAdd, hother (show 0 ≠ 4 by decide),
          hother (show 1 ≠ 4 by decide), hother (show 2 ≠ 4 by decide),
          hother (show 3 ≠ 4 by decide), hother (show 5 ≠ 4 by decide),
          hother (show 6 ≠ 4 by decide), hother (show 7 ≠ 4 by decide), hfour]
        lia
      refine Nat.eq_of_testBit_eq fun t => ?_
      rw [hquad, Nat.testBit_and, Nat.testBit_two_pow_mul, Nat.zero_testBit]
      by_cases ht : 32 ≤ t
      · rw [Nat.testBit_lt_two_pow (Nat.lt_of_lt_of_le hsmall
          (Nat.pow_le_pow_right (by decide) ht)), Bool.and_false]
      · rw [decide_eq_false ht, Bool.false_and, Bool.false_and]
    rw [hfirst, hfirst]
  · rw [littleEndian_congr fun q hlo _ => ?_]
    rw [fifthPixel_byteAt (by lia), fifthPixel_byteAt (by lia)]

theorem fifthPixel_length (h : 5 ≤ n) (b : UInt8) : (fifthPixel n b).length = n := by
  rw [fifthPixel, List.length_append, List.length_replicate]
  show 5 + (n - 5) = n
  lia

theorem fifthPixel_separated (h : 5 ≤ n) (raw : Nat) (b : UInt8) :
    separatePlanes (fifthPixel n b) raw masks = separatePlanes (fifthPixel n 0) raw masks := by
  have hplane : ∀ mask ∈ masks, separatePlane (fifthPixel n b) mask raw raw 0
      = separatePlane (fifthPixel n 0) mask raw raw 0 := fun mask hmask =>
    separatePlane_congr (by rw [fifthPixel_length h, fifthPixel_length h])
      (fun i hi => fifthPixel_masked hmask b hi) rfl
  have hall : ∀ ms : List Nat, (∀ mask ∈ ms, mask ∈ masks) →
      separatePlanes (fifthPixel n b) raw ms = separatePlanes (fifthPixel n 0) raw ms := by
    intro ms hms
    induction ms with
    | nil => rfl
    | cons mask ms ih =>
      rw [separatePlanes, separatePlanes, hplane mask (hms mask List.mem_cons_self),
        ih fun m hm => hms m (List.mem_cons_of_mem mask hm)]
  exact hall masks fun _ hm => hm

theorem encode4_room {planes planes₁ codes : List UInt8} {room : Nat}
    (h : encode4 g inbuf planes room = .ok (codes, planes₁)) : codes.length ≤ room := by
  rw [encode4] at h
  obtain ⟨_, -, h₁⟩ := steps_of_ok h
  obtain ⟨_, -, h₂⟩ := steps_of_ok h₁
  obtain ⟨codes', hcodes, h₃⟩ := steps_of_ok h₂
  obtain ⟨_, -, h₄⟩ := steps_of_ok hcodes
  obtain ⟨_, hroom, h₅⟩ := steps_of_ok h₄
  cases h₃
  cases h₅
  exact require_eq_ok.mp hroom

theorem grey_lost (hw : 1 < w) (h : w ≠ 4) : ¬ RoundTrips w .grey := by
  intro hall
  obtain ⟨g, hg⟩ : ∃ g, g = getActualTraits 4 w := ⟨_, rfl⟩
  have hraw : g.uBytesPerRawRow = w := by rw [hg]; rfl
  rcases Nat.lt_or_ge w 4 with hless | hmore
  · -- the second quad is outside
    have hzeros : (List.replicate (w + 12) (0 : UInt8)).length = w + 12 := List.length_replicate
    have hplane : separatePlanes (List.replicate (w + 12) 0) w masks = .error .outside := by
      obtain ⟨rounds, rfl⟩ := Nat.exists_eq_succ_of_ne_zero (Nat.ne_of_gt (Nat.zero_lt_of_lt hw))
      rw [masks_eq, separatePlanes, separatePlane, if_pos (Nat.succ_pos rounds),
        readQuad_ok (by lia), readQuad_outside (by
          show _ < 0 + 8 + 8
          lia)]
      rfl
    obtain ⟨planes, hplanes⟩ : ∃ planes : List UInt8, planes.length = g.planeBytes + spareBytes :=
      ⟨List.replicate _ 0, List.length_replicate⟩
    rw [hg] at hplanes
    obtain ⟨codes, planes₁, hencode, -⟩ := hall _ _ _ _ hzeros hzeros hplanes hplanes
    rw [← hg, encode4, hraw, hplane] at hencode
    exact nomatch hencode
  · have hlen : 5 ≤ w + 12 := by lia
    have hrow : ∀ b, (fifthPixel (w + 12) b).length = w + 12 := fifthPixel_length hlen
    obtain ⟨outbuf, houtbuf⟩ : ∃ outbuf : List UInt8, outbuf.length = w + 12 :=
      ⟨_, hrow 0⟩
    obtain ⟨planes, hplanes⟩ : ∃ planes : List UInt8, planes.length = g.planeBytes + spareBytes :=
      ⟨List.replicate _ 0, List.length_replicate⟩
    rw [hg] at hplanes
    obtain ⟨codes, planes₁, hencode, hdecode⟩ := hall _ _ _ _ (hrow 0) houtbuf hplanes hplanes
    obtain ⟨codes', planes₁', hencode', hdecode'⟩ := hall _ _ _ _ (hrow 16) houtbuf hplanes hplanes
    have hroom := encode4_room hencode
    rw [encode4, fifthPixel_separated hlen, ← encode4, hencode] at hencode'
    obtain ⟨rfl, rfl⟩ := Prod.mk.inj (Except.ok.inj hencode')
    obtain ⟨tail, htail⟩ : ∃ tail : List UInt8, (codes ++ tail).length
        = (getActualTraits 4 w).codedBytes + spareBytes := by
      refine ⟨List.replicate ((getActualTraits 4 w).codedBytes + spareBytes - codes.length) 0, ?_⟩
      rw [List.length_append, List.length_replicate]
      lia
    obtain ⟨out, hrun, hout⟩ := hdecode tail htail
    obtain ⟨out', hrun', hout'⟩ := hdecode' tail htail
    rw [hrun] at hrun'
    obtain ⟨-, rfl⟩ := Prod.mk.inj (Except.ok.inj hrun')
    -- the two rows differ in the pixel
    rw [hout, ← hg, hraw] at hout'
    have hpixel : ∀ b, (((fifthPixel (w + 12) b).take w).map (· &&& 0xf0)).getD 4 0 = b &&& 0xf0 := by
      intro b
      obtain ⟨rest, rfl⟩ := Nat.exists_eq_add_of_le (show 5 ≤ w by lia)
      rw [fifthPixel, Nat.add_comm 5 rest, List.take_append]
      rfl
    have hsame := congrArg (fun l => l.getD 4 0) hout'
    rw [hpixel, hpixel] at hsame
    exact absurd hsame (by decide)

/-- **The rows that come back** are those that eight-byte words do not reach beyond. -/
theorem roundTrips_iff (d : Depth) (hw : 1 < w) : RoundTrips w d ↔ FitsLongs w d := by
  cases d with
  | bilevel => exact ⟨fun h => not_not.mp fun hnot => bilevel_outside hnot h, bilevel_roundTrips⟩
  | grey =>
    constructor
    · intro h
      by_contra hnot
      exact grey_lost hw hnot h
    · rintro rfl
      exact grey_roundTrips

theorem roundTrips_iff_byte : RoundTrips 8 .bilevel ↔ FitsLongs 8 .bilevel :=
  roundTrips_iff .bilevel (by decide)

/-- A row of eight pixels of 16 levels does not come back. -/
theorem eight_pixels_lost : ¬ RoundTrips 8 .grey := grey_lost (by decide) (by decide)

end Hplip.Ip.Pcx
