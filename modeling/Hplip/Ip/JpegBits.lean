import Hplip.Lib.Bits
import Hplip.Ip.JpegEncode

/-!
# Bits in a JPEG scan (xjpg_enc.c, xjpg_dec.c)

The encoder puts fields into a cache of 32 bits and sends whole bytes from it, each `ff`
followed by a `00`; the decoder loads its own cache from the bytes and peeks at fields of it.
-/

namespace Hplip.Ip

open Bits

namespace JpegEnc

/-! ## The writer -/

abbrev Writer := Coder × List UInt8

/-- One round of the loop of `WRITE_BITS_HIZERO`. -/
def putCached (w : Writer) : Writer :=
  ({ w.1 with wrBitBuf := w.1.wrBitBuf <<< 8, wrBitsAvail := w.1.wrBitsAvail + 8 },
    w.2 ++ putByteStuff (w.1.wrBitBuf >>> 24).toUInt8)

def putCachedLoop : Nat → Writer → Writer
  | 0, w => w
  | rounds + 1, w =>
    let w := putCached w
    if w.1.wrBitsAvail ≤ 24 then putCachedLoop rounds w else w

def writeBitsHizero (w : Writer) (value nbits : Nat) : Writer :=
  let w := if w.1.wrBitsAvail < nbits then putCachedLoop 4 w else w
  let wrBitsAvail := w.1.wrBitsAvail - nbits
  ({ w.1 with
      wrBitBuf := w.1.wrBitBuf ||| (value.toUInt32 <<< wrBitsAvail.toUInt32)
      wrBitsAvail }, w.2)

def writeBits (w : Writer) (value : Int) (nbits : Nat) : Writer :=
  writeBitsHizero w (value % 2 ^ nbits).toNat nbits

/-! ## What the writer has put -/

def stuff (us : List UInt8) : List UInt8 := us.flatMap putByteStuff

@[simp] theorem stuff_nil : stuff [] = [] := rfl

@[simp] theorem stuff_cons (u : UInt8) (us : List UInt8) :
    stuff (u :: us) = putByteStuff u ++ stuff us := by
  simp [stuff]

@[simp] theorem stuff_append (us us' : List UInt8) : stuff (us ++ us') = stuff us ++ stuff us' := by
  simp [stuff]

def Coder.pending (c : Coder) : List Bool :=
  natBits (32 - c.wrBitsAvail) (c.wrBitBuf.toNat >>> c.wrBitsAvail)

structure Coder.Wf (c : Coder) : Prop where
  avail : c.wrBitsAvail ≤ 32
  low : ∀ i < c.wrBitsAvail, c.wrBitBuf.toNat.testBit i = false

structure Writer.Wrote (w : Writer) (bits : List Bool) : Prop where
  wf : w.1.Wf
  sent : ∃ us, w.2 = stuff us ∧ bits = bitsOf us ++ w.1.pending

theorem Coder.init_wrote : Writer.Wrote (Coder.init, []) [] where
  wf := ⟨Nat.le_refl 32, fun i _ => Nat.zero_testBit i⟩
  sent := ⟨[], rfl, rfl⟩

variable {w : Writer} {bits : List Bool}

theorem toNat_shiftLeft_eight (b : UInt32) : (b <<< 8).toNat = b.toNat <<< 8 % 2 ^ 32 := by
  rw [UInt32.toNat_shiftLeft]
  rfl

theorem toNat_shiftRight_byte (b : UInt32) :
    (b >>> 24).toUInt8 = UInt8.ofNat (b.toNat >>> 24) := by
  apply UInt8.toNat_inj.mp
  rw [UInt32.toNat_toUInt8, UInt32.toNat_shiftRight, UInt8.toNat_ofNat']
  rfl

theorem natBits_shiftLeft_eight (b : UInt32) {n k : Nat} (h : n + k ≤ 24) :
    natBits n ((b <<< 8).toNat >>> (k + 8)) = natBits n (b.toNat >>> k) := by
  refine natBits_congr fun i hi => ?_
  rw [toNat_shiftLeft_eight, Nat.testBit_shiftRight, Nat.testBit_shiftRight,
    Nat.testBit_mod_two_pow, Nat.testBit_shiftLeft, decide_eq_true (by lia),
    decide_eq_true (by lia), Bool.true_and, Bool.true_and]
  congr 1
  lia

theorem putCached_wrote (h : w.Wrote bits) (havail : w.1.wrBitsAvail ≤ 24) :
    (putCached w).Wrote bits := by
  obtain ⟨us, hout, hbits⟩ := h.sent
  constructor
  · constructor
    · show w.1.wrBitsAvail + 8 ≤ 32
      lia
    · intro i hi
      have hi : i < w.1.wrBitsAvail + 8 := hi
      show (w.1.wrBitBuf <<< 8).toNat.testBit i = false
      rw [toNat_shiftLeft_eight, Nat.testBit_mod_two_pow, Nat.testBit_shiftLeft]
      rcases Nat.lt_or_ge i 8 with hlt | hge
      · simp [Nat.not_le.mpr hlt]
      · rw [h.wf.low (i - 8) (by lia)]
        simp
  · refine ⟨us ++ [(w.1.wrBitBuf >>> 24).toUInt8], ?_, ?_⟩
    · show w.2 ++ putByteStuff (w.1.wrBitBuf >>> 24).toUInt8 = _
      rw [stuff_append, ← hout, stuff_cons, stuff_nil, List.append_nil]
    · rw [hbits, bitsOf_append, List.append_assoc, bitsOf_cons, bitsOf_nil, List.append_nil,
        toNat_shiftRight_byte, byteBits_ofNat, Coder.pending, Coder.pending]
      congr 1
      have hfield : 32 - w.1.wrBitsAvail = 8 + (24 - w.1.wrBitsAvail) := by lia
      have hnext : 32 - (putCached w).1.wrBitsAvail = 24 - w.1.wrBitsAvail := by
        show 32 - (w.1.wrBitsAvail + 8) = _
        lia
      rw [hfield, natBits_add, hnext]
      congr 1
      · rw [← Nat.shiftRight_add, show w.1.wrBitsAvail + (24 - w.1.wrBitsAvail) = 24 by lia]
      · exact (natBits_shiftLeft_eight w.1.wrBitBuf (by lia)).symm

theorem putCachedLoop_wrote (rounds : Nat) (h : w.Wrote bits) (havail : w.1.wrBitsAvail ≤ 24)
    (hrounds : 24 < w.1.wrBitsAvail + 8 * rounds) :
    (putCachedLoop rounds w).Wrote bits ∧ 24 < (putCachedLoop rounds w).1.wrBitsAvail := by
  induction rounds generalizing w with
  | zero => lia
  | succ rounds ih =>
    have hput := putCached_wrote h havail
    have hnext : (putCached w).1.wrBitsAvail = w.1.wrBitsAvail + 8 := rfl
    rw [putCachedLoop]
    by_cases hle : (putCached w).1.wrBitsAvail ≤ 24
    · rw [if_pos hle]
      exact ih hput hle (by lia)
    · rw [if_neg hle]
      exact ⟨hput, by lia⟩

theorem orBits_wrote {value nbits : Nat} (h : w.Wrote bits) (hroom : nbits ≤ w.1.wrBitsAvail)
    (hvalue : value < 2 ^ nbits) :
    Writer.Wrote
      ({ w.1 with
          wrBitBuf :=
            w.1.wrBitBuf ||| (value.toUInt32 <<< (w.1.wrBitsAvail - nbits).toUInt32)
          wrBitsAvail := w.1.wrBitsAvail - nbits }, w.2)
      (bits ++ natBits nbits value) := by
  obtain ⟨us, hout, hbits⟩ := h.sent
  have havail := h.wf.avail
  have hshift : value <<< (w.1.wrBitsAvail - nbits) < 2 ^ w.1.wrBitsAvail := by
    rw [Nat.shiftLeft_eq, ← Nat.sub_add_cancel hroom, Nat.pow_add, Nat.sub_add_cancel hroom,
      Nat.mul_comm]
    exact Nat.mul_lt_mul_of_pos_left hvalue (Nat.pow_pos (by decide))
  have hshift32 : value <<< (w.1.wrBitsAvail - nbits) < 2 ^ 32 :=
    Nat.lt_of_lt_of_le hshift (Nat.pow_le_pow_right (by decide) havail)
  have hfield : (value.toUInt32 <<< (w.1.wrBitsAvail - nbits).toUInt32).toNat
      = value <<< (w.1.wrBitsAvail - nbits) := by
    rcases Nat.eq_zero_or_pos value with rfl | hpos
    · simp
    · -- a value that is not zero has a bit, so the shift is by less than 32
      have hpos_bits : 0 < nbits := by
        rcases Nat.eq_zero_or_pos nbits with rfl | hn
        · lia
        · exact hn
      have hsmall : value < 2 ^ 32 := Nat.lt_of_lt_of_le hvalue
        (Nat.pow_le_pow_right (by decide) (by lia))
      rw [UInt32.toNat_shiftLeft, Nat.toUInt32_eq, UInt32.toNat_ofNat', Nat.toUInt32_eq,
        UInt32.toNat_ofNat', Nat.mod_eq_of_lt hsmall,
        Nat.mod_eq_of_lt (show w.1.wrBitsAvail - nbits < 2 ^ 32 by lia),
        Nat.mod_eq_of_lt (show w.1.wrBitsAvail - nbits < 32 by lia),
        Nat.mod_eq_of_lt hshift32]
  constructor
  · constructor
    · show w.1.wrBitsAvail - nbits ≤ 32
      lia
    · intro i hi
      have hi : i < w.1.wrBitsAvail - nbits := hi
      show (w.1.wrBitBuf ||| _).toNat.testBit i = false
      rw [UInt32.toNat_or, hfield, Nat.testBit_or, h.wf.low i (by lia), Nat.testBit_shiftLeft,
        decide_eq_false (by lia), Bool.false_and, Bool.or_false]
  · refine ⟨us, hout, ?_⟩
    rw [hbits, List.append_assoc, Coder.pending, Coder.pending]
    congr 1
    show _ = natBits (32 - (w.1.wrBitsAvail - nbits))
      ((w.1.wrBitBuf ||| _).toNat >>> (w.1.wrBitsAvail - nbits))
    have hlen : 32 - (w.1.wrBitsAvail - nbits) = (32 - w.1.wrBitsAvail) + nbits := by lia
    rw [UInt32.toNat_or, hfield, hlen, natBits_add]
    congr 1
    · refine natBits_congr fun i _ => ?_
      rw [← Nat.shiftRight_add, Nat.sub_add_cancel hroom, Nat.testBit_shiftRight,
        Nat.testBit_shiftRight, Nat.testBit_or,
        Nat.testBit_lt_two_pow (Nat.lt_of_lt_of_le hshift
          (Nat.pow_le_pow_right (by decide) (Nat.le_add_right _ i))), Bool.or_false]
    · refine natBits_congr fun i hi => ?_
      rw [Nat.testBit_shiftRight, Nat.testBit_or, h.wf.low _ (by lia), Bool.false_or,
        Nat.testBit_shiftLeft, decide_eq_true (Nat.le_add_right _ i), Bool.true_and,
        Nat.add_sub_cancel_left]

theorem writeBitsHizero_wrote {value nbits : Nat} (h : w.Wrote bits) (hlen : nbits ≤ 25)
    (hvalue : value < 2 ^ nbits) :
    (writeBitsHizero w value nbits).Wrote (bits ++ natBits nbits value) := by
  rw [writeBitsHizero]
  by_cases hfull : w.1.wrBitsAvail < nbits
  · obtain ⟨hloop, hroom⟩ := putCachedLoop_wrote 4 h (by omega) (by omega)
    simp only [if_pos hfull]
    exact orBits_wrote hloop (by omega) hvalue
  · simp only [if_neg hfull]
    exact orBits_wrote h (by omega) hvalue

theorem writeBits_wrote {value : Int} {nbits : Nat} (h : w.Wrote bits) (hlen : nbits ≤ 25) :
    (writeBits w value nbits).Wrote (bits ++ natBits nbits (value % 2 ^ nbits).toNat) := by
  refine writeBitsHizero_wrote h hlen ?_
  have hpos : (0 : Int) < 2 ^ nbits := Int.pow_pos (by decide)
  have hlt := Int.emod_lt_of_pos value hpos
  rw [← Int.toNat_of_nonneg (Int.emod_nonneg value hpos.ne')] at hlt
  exact_mod_cast hlt

/-! ## The padding -/

theorem flushBytes_eq (n : Nat) (buf : UInt32) (hn : n ≤ 4) :
    ∃ us, flushBytes n buf = stuff us ∧
      bitsOf us = natBits (8 * n) (buf.toNat >>> (32 - 8 * n)) := by
  induction n generalizing buf with
  | zero => exact ⟨[], rfl, rfl⟩
  | succ n ih =>
    obtain ⟨us, hus, hbits⟩ := ih (buf <<< 8) (by lia)
    refine ⟨(buf >>> 24).toUInt8 :: us, ?_, ?_⟩
    · rw [flushBytes, hus, stuff_cons]
    · rw [bitsOf_cons, hbits, toNat_shiftRight_byte, byteBits_ofNat,
        show 8 * (n + 1) = 8 + 8 * n by lia, natBits_add, ← Nat.shiftRight_add,
        show 32 - (8 + 8 * n) + 8 * n = 24 by lia]
      congr 1
      have hmoved := natBits_shiftLeft_eight buf (n := 8 * n) (k := 32 - (8 + 8 * n)) (by lia)
      rwa [show 32 - (8 + 8 * n) + 8 = 32 - 8 * n by lia] at hmoved

theorem writeBitsFlush_wrote (h : w.Wrote bits) :
    ∃ us k, w.2 ++ (writeBitsFlush w.1).2 = stuff us ∧ k < 8 ∧
      bitsOf us = bits ++ List.replicate k true := by
  obtain ⟨us, hout, hbits⟩ := h.sent
  have havail := h.wf.avail
  rw [writeBitsFlush]
  by_cases hfree : w.1.wrBitsAvail = 32
  · refine ⟨us, 0, ?_, by decide, ?_⟩
    · rw [if_neg (not_not.mpr hfree), List.append_nil, hout]
    · rw [hbits, Coder.pending, hfree]
      simp
  · have hmask : ((1 <<< w.1.wrBitsAvail.toUInt32 : UInt32) - 1).toNat
        = 2 ^ w.1.wrBitsAvail - 1 := by
      have hpow : 2 ^ w.1.wrBitsAvail < 2 ^ 32 := Nat.pow_lt_pow_right (by decide) (by lia)
      have hone : (1 <<< w.1.wrBitsAvail.toUInt32 : UInt32).toNat = 2 ^ w.1.wrBitsAvail := by
        rw [UInt32.toNat_shiftLeft, Nat.toUInt32_eq, UInt32.toNat_ofNat',
          Nat.mod_eq_of_lt (show w.1.wrBitsAvail < 2 ^ 32 by lia),
          Nat.mod_eq_of_lt (show w.1.wrBitsAvail < 32 by lia), UInt32.toNat_one,
          Nat.one_shiftLeft, Nat.mod_eq_of_lt hpow]
      rw [UInt32.toNat_sub_of_le, hone, UInt32.toNat_one]
      rw [UInt32.le_iff_toNat_le, hone, UInt32.toNat_one]
      exact Nat.one_le_two_pow
    obtain ⟨us', hus', hbits'⟩ := flushBytes_eq ((32 - w.1.wrBitsAvail + 7) / 8)
      (w.1.wrBitBuf ||| (1 <<< w.1.wrBitsAvail.toUInt32 - 1)) (by lia)
    refine ⟨us ++ us', 8 * ((32 - w.1.wrBitsAvail + 7) / 8) - (32 - w.1.wrBitsAvail), ?_,
      by lia, ?_⟩
    · rw [if_pos hfree, stuff_append, hout, ← hus']
    · rw [bitsOf_append, hbits', hbits, List.append_assoc, Coder.pending]
      congr 1
      -- the used part is what was pending, the part below it the ones of the mask
      obtain ⟨k, hk⟩ : ∃ k, 8 * ((32 - w.1.wrBitsAvail + 7) / 8) = 32 - w.1.wrBitsAvail + k :=
        ⟨8 * ((32 - w.1.wrBitsAvail + 7) / 8) - (32 - w.1.wrBitsAvail), by lia⟩
      rw [hk, natBits_add, UInt32.toNat_or, hmask, Nat.add_sub_cancel_left]
      congr 1
      · refine natBits_congr fun i _ => ?_
        rw [Nat.testBit_shiftRight, Nat.testBit_shiftRight, Nat.testBit_shiftRight,
          Nat.testBit_or, Nat.testBit_two_pow_sub_one, decide_eq_false (by lia), Bool.or_false]
        congr 1
        lia
      · refine natBits_ones fun i hi => ?_
        rw [Nat.testBit_shiftRight, Nat.testBit_or, Nat.testBit_two_pow_sub_one,
          decide_eq_true (by lia), Bool.or_true]

end JpegEnc

namespace JpegDec

open JpegEnc

/-! ## The reader -/

inductive Stop where
  | hitMarker
  | syntaxErr
  /-- The source reads past the bytes that the buffer holds, or what it never set. -/
  | pastEnd
  deriving DecidableEq, Repr

/-- `rd_bit_buf`, `rd_bits_avail` and the bytes from `rd_inbuf_next` on. -/
structure Reader where
  rdBitBuf : Nat
  rdBitsAvail : Int
  next : List UInt8

/-- `read_init` and `read_buf_open`. -/
def Reader.init (next : List UInt8) : Reader := ⟨0, 0, next⟩

/-- `CANT_LOAD_NEAR_MARKER`: nothing is cached, or a few ones that are a marker's fill bits. -/
def CantLoadNearMarker (rdBitBuf : Nat) (rdBitsAvail : Int) : Prop :=
  rdBitsAvail ≤ 0 ∨
    (rdBitsAvail ≤ 7 ∧
      rdBitBuf % 2 ^ rdBitsAvail.toNat = 2 ^ rdBitsAvail.toNat - 1)

instance (rdBitBuf : Nat) (rdBitsAvail : Int) :
    Decidable (CantLoadNearMarker rdBitBuf rdBitsAvail) :=
  inferInstanceAs (Decidable (_ ∨ _))

/-- The loop of `READ_BITS_LOAD`. -/
def loadLoop (rdBitBuf : Nat) (rdBitsAvail : Int) : List UInt8 → Except Stop Reader
  | [] => .error .pastEnd
  | a :: next =>
    if a = 0xff then
      match next with
      | [] => .error .pastEnd
      | m :: next' =>
        if m ≠ 0 then
          if CantLoadNearMarker rdBitBuf rdBitsAvail then .error .hitMarker
          else .ok ⟨rdBitBuf, rdBitsAvail, a :: m :: next'⟩
        else if rdBitsAvail + 8 ≤ 24 then
          loadLoop ((rdBitBuf <<< 8 ||| a.toNat) % 2 ^ 32) (rdBitsAvail + 8) next'
        else .ok ⟨(rdBitBuf <<< 8 ||| a.toNat) % 2 ^ 32, rdBitsAvail + 8, next'⟩
    else if rdBitsAvail + 8 ≤ 24 then
      loadLoop ((rdBitBuf <<< 8 ||| a.toNat) % 2 ^ 32) (rdBitsAvail + 8) next
    else .ok ⟨(rdBitBuf <<< 8 ||| a.toNat) % 2 ^ 32, rdBitsAvail + 8, next⟩

/-- The value that `READ_BITS_LOAD` gives. -/
def Reader.peek (r : Reader) (nbits : Nat) : Nat :=
  (r.rdBitBuf <<< (32 - r.rdBitsAvail).toNat % 2 ^ 32) >>> (32 - nbits)

def readBitsLoad (r : Reader) (nbits : Nat) : Except Stop (Nat × Reader) := do
  let r ← if r.rdBitsAvail < nbits then loadLoop r.rdBitBuf r.rdBitsAvail r.next else pure r
  return (r.peek nbits, r)

def readBitsAdvance (r : Reader) (nbits : Nat) : Reader :=
  { r with rdBitsAvail := r.rdBitsAvail - nbits }

/-! ## What the reader has before it -/

/-- The bits in the reader's cache and in the bytes before `tail`. -/
structure Reader.Holds (tail : List UInt8) (r : Reader) (bits : List Bool) : Prop where
  low : 0 ≤ r.rdBitsAvail
  high : r.rdBitsAvail ≤ 32
  rest : ∃ us, r.next = stuff us ++ tail ∧
    bits = natBits r.rdBitsAvail.toNat r.rdBitBuf ++ bitsOf us

/-- A field of `n` bits, with zeroes behind the last bit there is. -/
def field (n : Nat) (bits : List Bool) : Nat := ofBits ((bits ++ List.replicate n false).take n)

variable {bits : List Bool} {tail : List UInt8} {r : Reader}

theorem field_shiftRight {k n : Nat} (hk : k ≤ n) (bits : List Bool) :
    field n bits >>> (n - k) = field k bits := by
  have hlen : ((bits ++ List.replicate n false).take n).length = n := by
    rw [List.length_take, List.length_append, List.length_replicate,
      Nat.min_eq_left (Nat.le_add_left _ _)]
  have hfront : ((bits ++ List.replicate n false).take n).take k
      = (bits ++ List.replicate k false).take k := by
    rw [List.take_take, Nat.min_eq_left hk, List.take_append, List.take_append,
      List.take_replicate, List.take_replicate, Nat.min_eq_left (by lia),
      Nat.min_eq_left (by lia)]
  have hback : (((bits ++ List.replicate n false).take n).drop k).length = n - k := by
    rw [List.length_drop, hlen]
  have hsplit := ofBits_append (((bits ++ List.replicate n false).take n).take k)
    (((bits ++ List.replicate n false).take n).drop k)
  rw [List.take_append_drop, hfront, hback] at hsplit
  have hlt := ofBits_lt (((bits ++ List.replicate n false).take n).drop k)
  rw [hback] at hlt
  rw [field, field, hsplit, Nat.shiftRight_eq_div_pow, Nat.mul_comm,
    Nat.mul_add_div (Nat.two_pow_pos _), Nat.div_eq_of_lt hlt, Nat.add_zero]

theorem field_append {n : Nat} {word : List Bool} (h : word.length = n) (bits : List Bool) :
    field n (word ++ bits) = ofBits word := by
  rw [field, List.append_assoc, List.take_append_of_le_length (by omega), ← h, List.take_length]

theorem natBits_push {n : Nat} (buf : Nat) (u : UInt8) (hn : n + 8 ≤ 32) :
    natBits (n + 8) ((buf <<< 8 ||| u.toNat) % 2 ^ 32) = natBits n buf ++ byteBits u := by
  rw [natBits_mod hn, natBits_append u.toNat_lt]
  rfl

theorem loadLoop_byte (buf : Nat) (avail : Int) (u : UInt8) (next : List UInt8) :
    loadLoop buf avail (putByteStuff u ++ next) =
      if avail + 8 ≤ 24 then loadLoop ((buf <<< 8 ||| u.toNat) % 2 ^ 32) (avail + 8) next
      else .ok ⟨(buf <<< 8 ||| u.toNat) % 2 ^ 32, avail + 8, next⟩ := by
  rw [putByteStuff]
  by_cases hu : u = 0xff
  · rw [if_pos hu, List.cons_append, List.cons_append, List.nil_append, loadLoop, if_pos hu]
    exact if_neg (not_not.mpr rfl)
  · rw [if_neg hu, List.cons_append, List.nil_append, loadLoop.eq_def]
    exact if_neg hu

theorem not_cantLoadNearMarker {n : Nat} {buf : Nat}
    (h : 8 ≤ n ∨ false ∈ natBits n buf) : ¬ CantLoadNearMarker buf n := by
  rintro (hempty | ⟨hfew, hones⟩)
  · rcases h with h | h
    · omega
    · rw [show n = 0 by omega] at h
      simp at h
  · rcases h with h | h
    · omega
    · rw [Int.toNat_natCast] at hones
      rw [← natBits_mod (Nat.le_refl n), hones,
        natBits_two_pow_sub_one] at h
      simp at h

theorem loadLoop_spec {m : UInt8} {t : List UInt8} (hm : m ≠ 0) (us : List UInt8) (buf n : Nat)
    (hn : n ≤ 24) (hload : us ≠ [] ∨ 8 ≤ n ∨ false ∈ natBits n buf) :
    ∃ r, loadLoop buf n (stuff us ++ 0xff :: m :: t) = .ok r ∧
      r.Holds (0xff :: m :: t) (natBits n buf ++ bitsOf us) ∧
      (24 < r.rdBitsAvail ∨ r.next = 0xff :: m :: t) := by
  induction us generalizing buf n with
  | nil =>
    have hcan := not_cantLoadNearMarker (hload.resolve_left (fun h => h rfl))
    refine ⟨⟨buf, n, 0xff :: m :: t⟩, ?_, ⟨Int.natCast_nonneg n, ?_, [], rfl, ?_⟩,
      Or.inr rfl⟩
    · rw [stuff_nil, List.nil_append, loadLoop, if_pos rfl]
      exact (if_pos hm).trans (if_neg hcan)
    · show (n : Int) ≤ 32
      omega
    · simp
  | cons u us ih =>
    have hpush := natBits_push buf u (show n + 8 ≤ 32 by omega)
    rw [stuff_cons, List.append_assoc, loadLoop_byte]
    have hcast : (n : Int) + 8 = ((n + 8 : Nat) : Int) := by push_cast; ring
    rw [hcast]
    by_cases hmore : ((n + 8 : Nat) : Int) ≤ 24
    · obtain ⟨r, hr, hholds, hend⟩ := ih ((buf <<< 8 ||| u.toNat) % 2 ^ 32) (n + 8) (by omega)
        (Or.inr (Or.inl (by omega)))
      refine ⟨r, (if_pos hmore).trans hr, ?_, hend⟩
      rw [bitsOf_cons, ← List.append_assoc, ← hpush]
      exact hholds
    · refine ⟨_, if_neg hmore, ⟨by simp only; omega, by simp only; omega, us, rfl, ?_⟩,
        Or.inl (by simp only; omega)⟩
      rw [bitsOf_cons, ← List.append_assoc, ← hpush]
      rfl

theorem natBits_peek {n : Nat} (hlow : 0 ≤ r.rdBitsAvail) (hhigh : r.rdBitsAvail ≤ 32)
    (hn : n ≤ 32) :
    natBits n (r.peek n) =
      (natBits r.rdBitsAvail.toNat r.rdBitBuf
        ++ List.replicate (32 - r.rdBitsAvail.toNat) false).take n := by
  have hword : natBits 32 (r.rdBitBuf <<< (32 - r.rdBitsAvail).toNat % 2 ^ 32)
      = natBits r.rdBitsAvail.toNat r.rdBitBuf
        ++ List.replicate (32 - r.rdBitsAvail.toNat) false := by
    have happend := natBits_append (j := r.rdBitsAvail.toNat) (m := r.rdBitBuf)
      (Nat.pow_pos (n := 32 - r.rdBitsAvail.toNat) (show 0 < 2 by decide))
    rw [natBits_of_zero, Nat.or_zero, Nat.add_sub_cancel' (by lia)] at happend
    rw [natBits_mod (Nat.le_refl 32), ← happend, show (32 - r.rdBitsAvail).toNat
      = 32 - r.rdBitsAvail.toNat by lia]
  have hsplit := natBits_add n (32 - n) (r.rdBitBuf <<< (32 - r.rdBitsAvail).toNat % 2 ^ 32)
  rw [Nat.add_sub_cancel' hn, hword] at hsplit
  rw [hsplit, List.take_left' (natBits_length _ _)]
  rfl

theorem readBitsLoad_holds {m : UInt8} {t : List UInt8} (hm : m ≠ 0) {n : Nat}
    (h : r.Holds (0xff :: m :: t) bits) (hn : n ≤ 16)
    (hload : n ≤ bits.length ∨ false ∈ bits) :
    ∃ r', readBitsLoad r n = .ok (field n bits, r') ∧ r'.Holds (0xff :: m :: t) bits ∧
      (min n bits.length : Nat) ≤ r'.rdBitsAvail := by
  obtain ⟨us, hnext, hbits⟩ := h.rest
  have hlow := h.low
  have hhigh := h.high
  -- the reader after the load, with all bits there are or as many as the peek needs
  obtain ⟨r', hload', hholds, hend⟩ : ∃ r' : Reader,
      (if r.rdBitsAvail < n then loadLoop r.rdBitBuf r.rdBitsAvail r.next else .ok r) = .ok r' ∧
        r'.Holds (0xff :: m :: t) bits ∧
        ((n : Int) ≤ r'.rdBitsAvail ∨ r'.next = 0xff :: m :: t) := by
    by_cases hfew : r.rdBitsAvail < n
    · obtain ⟨r', hr', hholds, hend⟩ := loadLoop_spec hm (t := t) us r.rdBitBuf
        r.rdBitsAvail.toNat (by lia) (by
          rcases us with _ | ⟨u, us⟩
          · rw [bitsOf_nil, List.append_nil] at hbits
            have hlen : bits.length = r.rdBitsAvail.toNat := by rw [hbits, natBits_length]
            right; right
            rw [← hbits]
            exact hload.resolve_left (by lia)
          · exact Or.inl (List.cons_ne_nil _ _))
      rw [Int.toNat_of_nonneg hlow, ← hnext] at hr'
      refine ⟨r', (if_pos hfew).trans hr', hbits ▸ hholds, hend.imp_left fun h24 => by lia⟩
    · exact ⟨r, if_neg hfew, h, Or.inl (by lia)⟩
  obtain ⟨us', hnext', hbits'⟩ := hholds.rest
  have hlow' := hholds.low
  have hhigh' := hholds.high
  have hpeek := natBits_peek (n := n) hlow' hhigh' (by lia)
  have hlt : r'.peek n < 2 ^ n := by
    rw [Reader.peek, Nat.shiftRight_eq_div_pow]
    refine Nat.div_lt_of_lt_mul ?_
    rw [← Nat.pow_add, Nat.sub_add_cancel (by lia)]
    exact Nat.mod_lt _ (by decide)
  have hempty : r'.next = 0xff :: m :: t → us' = [] := by
    intro htail
    rw [hnext', List.append_left_eq_self] at htail
    rcases us' with _ | ⟨u, us'⟩
    · rfl
    · rw [stuff_cons, putByteStuff] at htail
      by_cases hu : u = 0xff <;> simp [hu] at htail
  refine ⟨r', ?_, hholds, ?_⟩
  · have hvalue : r'.peek n = field n bits := by
      have hpow : r'.peek n = ofBits (natBits n (r'.peek n)) := by
        rw [ofBits_natBits, Nat.mod_eq_of_lt hlt]
      rw [hpow, hpeek, field, hbits']
      congr 1
      rcases Nat.lt_or_ge r'.rdBitsAvail.toNat n with hfew | henough
      · -- the marker is next, and both sides put zeroes behind the same bits
        rw [hempty (hend.resolve_left (by lia)), bitsOf_nil, List.append_nil,
          List.take_append, List.take_append, natBits_length, List.take_replicate,
          List.take_replicate, Nat.min_eq_left (by lia), Nat.min_eq_left (by lia)]
      · rw [List.append_assoc, List.take_append_of_le_length (by rw [natBits_length]; lia),
          List.take_append_of_le_length (by rw [natBits_length]; lia)]
    rw [readBitsLoad, ← hvalue]
    by_cases hfew : r.rdBitsAvail < n
    · rw [if_pos hfew] at hload'
      simp only [if_pos hfew, hload']
      rfl
    · rw [if_neg hfew] at hload'
      cases hload'
      simp only [if_neg hfew]
      rfl
  · rcases hend with henough | htail
    · lia
    · have hlen : bits.length = r'.rdBitsAvail.toNat := by
        rw [hbits', hempty htail, bitsOf_nil, List.append_nil, natBits_length]
      lia

theorem readBitsAdvance_holds {k : Nat} {word : List Bool} (h : r.Holds tail (word ++ bits))
    (hk : word.length = k) (hcached : (k : Int) ≤ r.rdBitsAvail) :
    (readBitsAdvance r k).Holds tail bits := by
  obtain ⟨us, hnext, hbits⟩ := h.rest
  have hhigh := h.high
  have hlow := h.low
  refine ⟨?_, ?_, us, hnext, ?_⟩
  · show 0 ≤ r.rdBitsAvail - k
    lia
  · show r.rdBitsAvail - k ≤ 32
    lia
  · have hsplit := natBits_add k (r.rdBitsAvail - k).toNat r.rdBitBuf
    rw [show k + (r.rdBitsAvail - k).toNat = r.rdBitsAvail.toNat by lia] at hsplit
    rw [hsplit, List.append_assoc] at hbits
    exact (List.append_inj hbits (by rw [natBits_length, hk])).2

end JpegDec

end Hplip.Ip
