import Hplip.Lib.Bits
import Hplip.Ip.FaxEncode
import Mathlib.Tactic.IntervalCases

/-!
# What the fax encoder writes

The bits that the encoder has put are the bytes in the output buffer and the used part of
`dwBitBuffer` behind them. Everything it writes goes through `putBits`, so a run of it
`Emits` the concatenation of words.
-/

namespace Hplip.Ip

open Bits

variable {g g' g'' : EncInst} {code code' : List Bool}

/-! ## The bit buffer -/

def EncInst.pending (g : EncInst) : List Bool :=
  natBits (32 - g.wBitsAvail) (g.dwBitBuffer >>> g.wBitsAvail)

def EncInst.bits (g : EncInst) : List Bool := bitsOf g.pbOut ++ g.pending

structure EncInst.Wf (g : EncInst) : Prop where
  avail : g.wBitsAvail ≤ 32
  buffer : g.dwBitBuffer < 2 ^ 32
  low : ∀ i < g.wBitsAvail, g.dwBitBuffer.testBit i = false

@[simp] theorem EncInst.pending_length (g : EncInst) : g.pending.length = 32 - g.wBitsAvail :=
  natBits_length _ _

theorem EncInst.bits_length (g : EncInst) :
    g.bits.length = 8 * g.pbOut.length + (32 - g.wBitsAvail) := by
  simp [EncInst.bits]

def EncInst.rest (g : EncInst) : EncInst :=
  { g with pbOut := [], dwBitBuffer := 0, wBitsAvail := 0 }

theorem writeByte_spec (h : g.Wf) (havail : g.wBitsAvail ≤ 24) :
    (writeByte g).Wf ∧ (writeByte g).bits = g.bits := by
  have hhigh : ∀ i, 32 ≤ i → g.dwBitBuffer.testBit i = false := fun i hi =>
    Nat.testBit_lt_two_pow (Nat.lt_of_lt_of_le h.buffer (Nat.pow_le_pow_right (by decide) hi))
  constructor
  · refine ⟨?_, Nat.mod_lt _ (by decide), fun i hi => ?_⟩
    · show g.wBitsAvail + 8 ≤ 32
      lia
    · show (g.dwBitBuffer <<< 8 % 2 ^ 32).testBit i = false
      have hi : i < g.wBitsAvail + 8 := hi
      rw [Nat.testBit_mod_two_pow, Nat.testBit_shiftLeft]
      rcases Nat.lt_or_ge i 8 with hlt | hge
      · simp [Nat.not_le.mpr hlt]
      · rw [h.low (i - 8) (by lia)]
        simp
  · have hfield : 32 - g.wBitsAvail = 8 + (24 - g.wBitsAvail) := by lia
    have hnext : 32 - (writeByte g).wBitsAvail = 24 - g.wBitsAvail := by
      show 32 - (g.wBitsAvail + 8) = _
      lia
    rw [EncInst.bits, EncInst.bits, EncInst.pending, EncInst.pending, hfield, natBits_add, hnext]
    show bitsOf (g.pbOut ++ [UInt8.ofNat (g.dwBitBuffer >>> 24)]) ++ _ = _
    rw [bitsOf_append, bitsOf_cons, bitsOf_nil, List.append_nil, byteBits_ofNat, List.append_assoc]
    congr 2
    · rw [← Nat.shiftRight_add, show g.wBitsAvail + (24 - g.wBitsAvail) = 24 by lia]
    · refine natBits_congr fun i hi => ?_
      show ((g.dwBitBuffer <<< 8 % 2 ^ 32) >>> (g.wBitsAvail + 8)).testBit i = _
      rw [Nat.testBit_shiftRight, Nat.testBit_shiftRight, Nat.testBit_mod_two_pow,
        Nat.testBit_shiftLeft, decide_eq_true (by lia), decide_eq_true (by lia),
        Bool.true_and, Bool.true_and]
      congr 1
      lia

theorem writeBytesLoop_rest (rounds : Nat) (g : EncInst) :
    (writeBytesLoop rounds g).rest = g.rest := by
  induction rounds generalizing g with
  | zero => rfl
  | succ rounds ih =>
    rw [writeBytesLoop]
    by_cases hle : (writeByte g).wBitsAvail ≤ 24
    · rw [if_pos hle]
      exact ih (writeByte g)
    · rw [if_neg hle]
      rfl

theorem putBits_rest (g : EncInst) (length bits : Nat) : (putBits g length bits).rest = g.rest := by
  rw [putBits]
  by_cases hfull : g.wBitsAvail < length
  · rw [if_pos hfull]
    exact writeBytesLoop_rest 4 g
  · rw [if_neg hfull]
    rfl

theorem putFlush_rest (g : EncInst) : (putFlush g).rest = g.rest := by
  rw [putFlush]
  by_cases hlt : g.wBitsAvail < 32
  · rw [if_pos hlt]
    exact writeBytesLoop_rest 4 _
  · rw [if_neg hlt]

theorem putFillBits_rest (g : EncInst) : (putFillBits g).rest = g.rest := by
  have h := putFlush_rest g
  rw [putFillBits]
  by_cases hmore : (0 : Int) < (putFlush g).wMinBits - 8 * (putFlush g).pbOut.length
  · rw [if_pos hmore]
    exact h
  · rw [if_neg hmore]
    exact h

theorem writeBytesLoop_spec (rounds : Nat) (h : g.Wf) (havail : g.wBitsAvail ≤ 24)
    (hrounds : 24 < g.wBitsAvail + 8 * rounds) :
    (writeBytesLoop rounds g).Wf ∧ (writeBytesLoop rounds g).bits = g.bits ∧
      24 < (writeBytesLoop rounds g).wBitsAvail ∧
      (writeBytesLoop rounds g).wBitsAvail % 8 = g.wBitsAvail % 8 := by
  induction rounds generalizing g with
  | zero => lia
  | succ rounds ih =>
    obtain ⟨hwf, hbits⟩ := writeByte_spec h havail
    have hnext : (writeByte g).wBitsAvail = g.wBitsAvail + 8 := rfl
    rw [writeBytesLoop]
    by_cases hle : (writeByte g).wBitsAvail ≤ 24
    · rw [if_pos hle]
      obtain ⟨h₁, h₂, h₃, h₄⟩ := ih hwf hle (by lia)
      exact ⟨h₁, h₂.trans hbits, h₃, h₄.trans (by lia)⟩
    · rw [if_neg hle]
      exact ⟨hwf, hbits, by lia, by lia⟩

theorem writeBytes_spec (h : g.Wf) (havail : g.wBitsAvail ≤ 24) :
    (writeBytes g).Wf ∧ (writeBytes g).bits = g.bits ∧
      24 < (writeBytes g).wBitsAvail ∧ (writeBytes g).wBitsAvail % 8 = g.wBitsAvail % 8 :=
  writeBytesLoop_spec 4 h havail (by omega)

/-- What `putBits` does once there is room. -/
def orBits (g : EncInst) (length bits : Nat) : EncInst :=
  { g with
    wBitsAvail := g.wBitsAvail - length
    dwBitBuffer := g.dwBitBuffer ||| bits <<< (g.wBitsAvail - length) }

theorem orBits_spec {length bits : Nat} (h : g.Wf) (hroom : length ≤ g.wBitsAvail)
    (hbits : bits < 2 ^ length) :
    (orBits g length bits).Wf ∧
      (orBits g length bits).bits = g.bits ++ natBits length bits := by
  have havail := h.avail
  have hshift : bits <<< (g.wBitsAvail - length) < 2 ^ g.wBitsAvail := by
    rw [Nat.shiftLeft_eq, ← Nat.sub_add_cancel hroom, Nat.pow_add, Nat.sub_add_cancel hroom,
      Nat.mul_comm]
    exact Nat.mul_lt_mul_of_pos_left hbits (Nat.pow_pos (by decide))
  constructor
  · refine ⟨Nat.le_trans (Nat.sub_le _ _) havail, ?_, fun i hi => ?_⟩
    · exact Nat.or_lt_two_pow h.buffer
        (Nat.lt_of_lt_of_le hshift (Nat.pow_le_pow_right (by decide) havail))
    · have hi : i < g.wBitsAvail - length := hi
      show (g.dwBitBuffer ||| bits <<< (g.wBitsAvail - length)).testBit i = false
      rw [Nat.testBit_or, h.low i (by lia), Nat.testBit_shiftLeft,
        decide_eq_false (by lia), Bool.false_and, Bool.or_false]
  · have hfield : 32 - (g.wBitsAvail - length) = (32 - g.wBitsAvail) + length := by lia
    rw [EncInst.bits, EncInst.bits, List.append_assoc, EncInst.pending, EncInst.pending]
    congr 1
    show natBits (32 - (g.wBitsAvail - length))
      ((g.dwBitBuffer ||| bits <<< (g.wBitsAvail - length)) >>> (g.wBitsAvail - length)) = _
    rw [hfield, natBits_add]
    congr 1
    · refine natBits_congr fun i _ => ?_
      rw [← Nat.shiftRight_add, Nat.sub_add_cancel hroom, Nat.testBit_shiftRight,
        Nat.testBit_shiftRight, Nat.testBit_or,
        Nat.testBit_lt_two_pow (Nat.lt_of_lt_of_le hshift
          (Nat.pow_le_pow_right (by decide) (Nat.le_add_right _ i))), Bool.or_false]
    · refine natBits_congr fun i hi => ?_
      rw [Nat.testBit_shiftRight, Nat.testBit_or, h.low _ (by lia), Bool.false_or,
        Nat.testBit_shiftLeft, decide_eq_true (Nat.le_add_right _ i), Bool.true_and,
        Nat.add_sub_cancel_left]

theorem putBits_spec {length bits : Nat} (h : g.Wf) (hlen : length ≤ 25)
    (hbits : bits < 2 ^ length) :
    (putBits g length bits).Wf ∧
      (putBits g length bits).bits = g.bits ++ natBits length bits ∧
      (putBits g length bits).wBitsAvail + length ≤ 32 := by
  have havail := h.avail
  rw [putBits]
  dsimp only
  by_cases hfull : g.wBitsAvail < length
  · rw [if_pos hfull]
    obtain ⟨hwf, hwrite, hroom, -⟩ := writeBytes_spec h (by lia)
    obtain ⟨h₁, h₂⟩ := orBits_spec hwf (show length ≤ _ by lia) hbits
    refine ⟨h₁, h₂.trans (by rw [hwrite]), ?_⟩
    have := hwf.avail
    show (writeBytes g).wBitsAvail - length + length ≤ 32
    lia
  · rw [if_neg hfull]
    obtain ⟨h₁, h₂⟩ := orBits_spec h (show length ≤ _ by lia) hbits
    refine ⟨h₁, h₂, ?_⟩
    show g.wBitsAvail - length + length ≤ 32
    lia

/-! ## Runs of `putBits` -/

/-- The instance after putting words that make up `code`. -/
inductive Emits (g : EncInst) : EncInst → List Bool → Prop
  | nil : Emits g g []
  | put {g' : EncInst} {code : List Bool} (length bits : Nat) (h : Emits g g' code)
      (hpos : 0 < length) (hlen : length ≤ 25) (hbits : bits < 2 ^ length) :
      Emits g (putBits g' length bits) (code ++ natBits length bits)

theorem Emits.trans (h : Emits g g' code) (h' : Emits g' g'' code') :
    Emits g g'' (code ++ code') := by
  induction h' with
  | nil => rwa [List.append_nil]
  | put length bits _ hpos hlen hbits ih =>
    rw [← List.append_assoc]
    exact ih.put length bits hpos hlen hbits

theorem emits_putBits (g : EncInst) {length bits : Nat} (hpos : 0 < length) (hlen : length ≤ 25)
    (hbits : bits < 2 ^ length) : Emits g (putBits g length bits) (natBits length bits) :=
  Emits.nil.put length bits hpos hlen hbits

theorem Emits.wf (h : Emits g g' code) (hg : g.Wf) : g'.Wf := by
  induction h with
  | nil => exact hg
  | put length bits _ _ hlen hbits ih => exact (putBits_spec ih hlen hbits).1

theorem Emits.bits (h : Emits g g' code) (hg : g.Wf) : g'.bits = g.bits ++ code := by
  induction h with
  | nil => rw [List.append_nil]
  | put length bits h _ hlen hbits ih =>
    rw [(putBits_spec (h.wf hg) hlen hbits).2.1, ih, List.append_assoc]

theorem Emits.rest (h : Emits g g' code) : g'.rest = g.rest := by
  induction h with
  | nil => rfl
  | put length bits _ _ _ _ ih => rw [putBits_rest, ih]

/-! ## Flushing -/

theorem putFlush_spec (h : g.Wf) :
    (putFlush g).Wf ∧ (putFlush g).wBitsAvail = 32 ∧
      ∃ pad < 8, (putFlush g).bits = g.bits ++ List.replicate pad false := by
  have havail := h.avail
  rw [putFlush]
  by_cases hlt : g.wBitsAvail < 32
  · rw [if_pos hlt]
    have hwf : EncInst.Wf { g with wBitsAvail := g.wBitsAvail / 8 * 8 } :=
      ⟨by show g.wBitsAvail / 8 * 8 ≤ 32; lia, h.buffer, fun i hi =>
        h.low i (Nat.lt_of_lt_of_le hi (Nat.div_mul_le_self _ _))⟩
    obtain ⟨h₁, h₂, h₃, h₄⟩ := writeBytes_spec hwf (by show g.wBitsAvail / 8 * 8 ≤ 24; lia)
    have h₄ : _ = g.wBitsAvail / 8 * 8 % 8 := h₄
    have hle := h₁.avail
    refine ⟨h₁, by lia, g.wBitsAvail % 8, Nat.mod_lt _ (by decide), h₂.trans ?_⟩
    rw [EncInst.bits, EncInst.bits, List.append_assoc]
    congr 1
    show natBits (32 - g.wBitsAvail / 8 * 8) (g.dwBitBuffer >>> (g.wBitsAvail / 8 * 8)) = _
    rw [show 32 - g.wBitsAvail / 8 * 8 = (32 - g.wBitsAvail) + g.wBitsAvail % 8 by lia,
      natBits_add, ← Nat.shiftRight_add, show g.wBitsAvail / 8 * 8 + g.wBitsAvail % 8
        = g.wBitsAvail by lia, ← natBits_of_zero]
    congr 1
    refine natBits_congr fun i hi => ?_
    rw [Nat.testBit_shiftRight, h.low _ (by lia), Nat.zero_testBit]
  · rw [if_neg hlt]
    exact ⟨h, by lia, 0, by decide, by rw [List.replicate_zero, List.append_nil]⟩

theorem putFillBits_spec (h : g.Wf) :
    (putFillBits g).Wf ∧ (putFillBits g).wBitsAvail = 32 ∧
      (∃ pad, (putFillBits g).bits = g.bits ++ List.replicate pad false) ∧
      (putFillBits g).pbOut.length
        = max ((g.bits.length + 7) / 8) ((g.wMinBits + 7) / 8) := by
  obtain ⟨hwf, havail, pad, hpad, hbits⟩ := putFlush_spec h
  have hlen : 8 * (putFlush g).pbOut.length = g.bits.length + pad := by
    have := congrArg List.length hbits
    rw [EncInst.bits_length, List.length_append, List.length_replicate, havail] at this
    lia
  have hmin : (putFlush g).wMinBits = g.wMinBits := by
    have := congrArg EncInst.wMinBits (putFlush_rest g)
    exact this
  rw [putFillBits]
  by_cases hmore : (0 : Int) < (putFlush g).wMinBits - 8 * (putFlush g).pbOut.length
  · rw [if_pos hmore]
    refine ⟨⟨hwf.avail, hwf.buffer, hwf.low⟩, havail, ⟨pad + 8 *
      ((((putFlush g).wMinBits : Int) - 8 * (putFlush g).pbOut.length + 7) / 8).toNat, ?_⟩, ?_⟩
    · show bitsOf ((putFlush g).pbOut ++ List.replicate _ 0) ++ (putFlush g).pending = _
      have hpending : (putFlush g).pending = [] := by
        rw [EncInst.pending, havail]
        rfl
      rw [EncInst.bits, hpending, List.append_nil] at hbits
      rw [bitsOf_append, bitsOf_replicate_zero, hpending, hbits, List.append_nil,
        List.append_assoc, List.replicate_append_replicate]
    · show (_ ++ List.replicate _ _).length = _
      rw [List.length_append, List.length_replicate]
      lia
  · rw [if_neg hmore]
    exact ⟨hwf, havail, ⟨pad, hbits⟩, by lia⟩

/-! ## Words -/

def HuffT.word (te : HuffT) : List Bool := natBits te.length te.bits

/-- An entry that `put_bits` can write. -/
def HuffT.Fits (te : HuffT) : Prop := 0 < te.length ∧ te.length ≤ 13 ∧ te.bits < 2 ^ te.length

instance (te : HuffT) : Decidable te.Fits := by
  unfold HuffT.Fits
  infer_instance

theorem putCode_emits (g : EncInst) {te : HuffT} (h : te.Fits) :
    Emits g (putCode g te) te.word :=
  emits_putBits g h.1 (Nat.le_trans h.2.1 (by decide)) h.2.2

/-- The entry for a final run or a make-up code, by its number of pixels. -/
def runCode (black : Bool) (v : Nat) : HuffT :=
  if v < 64 then (if black then mhBlackRuns else mhWhiteRuns)[v]!
  else if v < 1792 then (if black then mhMakeupBlack else mhMakeupWhite)[v / 64 - 1]!
  else mhExtMakeup[v / 64 - 28]!

def runValues : List Nat := List.range 64 ++ (List.range 40).map fun i => 64 * (i + 1)

theorem runCode_fits (black : Bool) {v : Nat} (h : v ∈ runValues) : (runCode black v).Fits := by
  have hall : ∀ black, ∀ v ∈ runValues, (runCode black v).Fits := by decide +kernel
  exact hall black v h

theorem mem_runValues_final {v : Nat} (h : v < 64) : v ∈ runValues :=
  List.mem_append_left _ (List.mem_range.mpr h)

theorem mem_runValues_makeup {i : Nat} (hpos : 0 < i) (h : i ≤ 40) : i * 64 ∈ runValues :=
  List.mem_append_right _
    (List.mem_map.mpr ⟨i - 1, List.mem_range.mpr (by lia), by lia⟩)

/-- The codes of a run: make-up codes, and a final one of less than 64 pixels. -/
def runParts (n : Nat) : List Nat :=
  if 2560 ≤ n then 2560 :: runParts (n - 2560)
  else if 64 ≤ n then [n / 64 * 64, n % 64]
  else [n]
termination_by n

def runWord (black : Bool) (n : Nat) : List Bool :=
  (runParts n).flatMap fun v => (runCode black v).word

theorem runParts_of_ge {n : Nat} (h : 2560 ≤ n) : runParts n = 2560 :: runParts (n - 2560) := by
  rw [runParts, if_pos h]

theorem runParts_of_makeup {n : Nat} (h : 64 ≤ n) (hlt : n < 2560) :
    runParts n = [n / 64 * 64, n % 64] := by
  rw [runParts, if_neg (Nat.not_le.mpr hlt), if_pos h]

theorem runParts_of_final {n : Nat} (h : n < 64) : runParts n = [n] := by
  rw [runParts, if_neg (by omega), if_neg (by omega)]

theorem runWord_of_ge {black : Bool} {n : Nat} (h : 2560 ≤ n) :
    runWord black n = (runCode black 2560).word ++ runWord black (n - 2560) := by
  rw [runWord, runParts_of_ge h, List.flatMap_cons]
  rfl

theorem runWord_of_makeup {black : Bool} {n : Nat} (h : 64 ≤ n) (hlt : n < 2560) :
    runWord black n = (runCode black (n / 64 * 64)).word ++ (runCode black (n % 64)).word := by
  rw [runWord, runParts_of_makeup h hlt, List.flatMap_cons, List.flatMap_cons, List.flatMap_nil,
    List.append_nil]

theorem runWord_of_final {black : Bool} {n : Nat} (h : n < 64) :
    runWord black n = (runCode black n).word := by
  rw [runWord, runParts_of_final h, List.flatMap_cons, List.flatMap_nil, List.append_nil]

/-! ### Putting a run -/

theorem runCode_final (black : Bool) {v : Nat} (h : v < 64) :
    (if black then mhBlackRuns else mhWhiteRuns)[v]! = runCode black v := by
  rw [runCode, if_pos h]

theorem runCode_makeup (black : Bool) {n : Nat} (h : 64 ≤ n) (hlt : n < 1792) :
    (if black then mhMakeupBlack else mhMakeupWhite)[n / 64 - 1]!
      = runCode black (n / 64 * 64) := by
  rw [runCode, if_neg (show ¬ n / 64 * 64 < 64 by lia),
    if_pos (show n / 64 * 64 < 1792 by lia), Nat.mul_div_cancel _ (by decide)]

theorem runCode_ext (black : Bool) {n : Nat} (h : 1792 ≤ n) :
    mhExtMakeup[n / 64 - 28]! = runCode black (n / 64 * 64) := by
  rw [runCode, if_neg (show ¬ n / 64 * 64 < 64 by lia),
    if_neg (show ¬ n / 64 * 64 < 1792 by lia), Nat.mul_div_cancel _ (by decide)]

theorem runCode_2560 (black : Bool) : mhExtMakeup[12]! = runCode black 2560 := by
  cases black <;> decide

theorem putRunRoutine_emits (black : Bool) (rounds : Nat) (g : EncInst) (n : Nat)
    (h : n ≤ rounds) :
    ∃ g₁, Emits g g₁ (runWord black n) ∧
      g₁ = (let (g, n) := putExtMakeups rounds g n
        if 64 ≤ n then
          putCode (putCode g (if black then mhMakeupBlack else mhMakeupWhite)[n / 64 - 1]!)
            (if black then mhBlackRuns else mhWhiteRuns)[n % 64]!
        else putCode g (if black then mhBlackRuns else mhWhiteRuns)[n]!) := by
  refine ⟨_, ?_, rfl⟩
  induction rounds generalizing g n with
  | zero =>
    obtain rfl : n = 0 := Nat.le_zero.mp h
    rw [putExtMakeups]
    dsimp only
    rw [if_neg (by decide), runCode_final black (by decide), runWord_of_final (by decide)]
    exact putCode_emits g (runCode_fits black (mem_runValues_final (by decide)))
  | succ rounds ih =>
    rw [putExtMakeups]
    by_cases hext : 1792 ≤ n
    · rw [if_pos hext]
      dsimp only
      rcases Nat.lt_or_ge n 2560 with hlt | hge
      · -- the last extended make-up code
        rw [Nat.min_eq_left (by lia), runCode_ext black hext, runWord_of_makeup (by lia) hlt,
          show n - (n / 64 - 28 + 28) * 64 = n % 64 by lia]
        have hfits := runCode_fits black (mem_runValues_makeup (i := n / 64) (by lia) (by lia))
        have hrest := ih (putCode g (runCode black (n / 64 * 64))) (n % 64) (by lia)
        rw [runWord_of_final (Nat.mod_lt n (by decide))] at hrest
        exact (putCode_emits g hfits).trans hrest
      · rw [Nat.min_eq_right (by lia), runCode_2560 black, runWord_of_ge hge]
        have hfits := runCode_fits black (mem_runValues_makeup (i := 40) (by decide) (by decide))
        exact (putCode_emits g hfits).trans (ih _ _ (by lia))
    · rw [if_neg hext]
      dsimp only
      by_cases hmakeup : 64 ≤ n
      · rw [if_pos hmakeup, runCode_makeup black hmakeup (by lia),
          runCode_final black (Nat.mod_lt n (by decide)), runWord_of_makeup hmakeup (by lia)]
        have hfits := runCode_fits black (mem_runValues_makeup (i := n / 64) (by lia) (by lia))
        have hfinal := runCode_fits black (mem_runValues_final (Nat.mod_lt n (by decide)))
        exact (putCode_emits g hfits).trans (putCode_emits _ hfinal)
      · rw [if_neg hmakeup, runCode_final black (by lia), runWord_of_final (by lia)]
        exact putCode_emits g (runCode_fits black (mem_runValues_final (by lia)))

theorem putRun_emits (black : Bool) (g : EncInst) (n : Nat) :
    Emits g (putRun g n (if black then mhMakeupBlack else mhMakeupWhite)
      (if black then mhBlackRuns else mhWhiteRuns)) (runWord black n) := by
  rw [putRun]
  by_cases h : 64 ≤ n
  · rw [if_pos h]
    obtain ⟨g₁, hemits, hg₁⟩ := putRunRoutine_emits black n g n (Nat.le_refl n)
    rw [hg₁] at hemits
    exact hemits
  · rw [if_neg h, runCode_final black (by omega), runWord_of_final (by omega)]
    exact putCode_emits g (runCode_fits black (mem_runValues_final (by omega)))

theorem putColour_emits (black : Bool) (g : EncInst) (n : Nat) :
    Emits g (if black then putBlackRun g n else putWhiteRun g n) (runWord black n) := by
  have h := putRun_emits black g n
  cases black <;> exact h

def eolWord : List Bool := natBits 12 1

theorem putEOL_emits (g : EncInst) : Emits g (putEOL g) eolWord :=
  emits_putBits g (by decide) (by decide) (by decide)

end Hplip.Ip
