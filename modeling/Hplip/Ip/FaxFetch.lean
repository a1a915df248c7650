import Mathlib
import Hplip.Lib.Bits
import Hplip.Ip.FaxPixels
import Hplip.Ip.FaxDecode

/-!
# What the fax decoder fetches

The bits that the decoder has left are those in its cache and those of the unread bytes
behind them. What it parses, and how far, is a function of these bits.
-/

namespace Hplip.Ip

open Bits

variable {b b' : Gb} {tbl : HuffTable} {bits : List Bool}

/-! ## The available bits -/

def Gb.avail (b : Gb) : List Bool := natBits b.cacheCnt b.cache ++ bitsOf b.unread

structure Gb.Wf (b : Gb) : Prop where
  cnt_le : b.cacheCnt ≤ 32
  cache_lt : b.cache < 2 ^ 32

theorem Gb.avail_length (b : Gb) : b.avail.length = b.cacheCnt + 8 * b.unread.length := by
  simp [Gb.avail]

theorem natBits_refill {cnt cache : Nat} (byte : UInt8) (h : cnt ≤ 24) :
    natBits (cnt + 8) ((cache <<< 8 ||| byte.toNat) % 2 ^ 32) = natBits cnt cache ++ byteBits byte := by
  rw [natBits_mod (by omega), natBits_append byte.toNat_lt, byteBits]

theorem refillCache_spec (cnt cache : Nat) (unread : List UInt8) (h : cnt ≤ 32)
    (hcache : cache < 2 ^ 32) :
    natBits (refillCache cnt cache unread).2.1 (refillCache cnt cache unread).2.2
        ++ bitsOf (refillCache cnt cache unread).1 = natBits cnt cache ++ bitsOf unread ∧
      (refillCache cnt cache unread).2.1 ≤ 32 ∧ (refillCache cnt cache unread).2.2 < 2 ^ 32 ∧
      ((refillCache cnt cache unread).1 = [] ∨ 24 < (refillCache cnt cache unread).2.1) := by
  induction unread generalizing cnt cache with
  | nil => exact ⟨rfl, h, hcache, .inl rfl⟩
  | cons byte rest ih =>
    rw [refillCache]
    by_cases hroom : cnt ≤ 24
    · rw [if_pos hroom]
      obtain ⟨h₁, h₂⟩ := ih (cnt + 8) ((cache <<< 8 ||| byte.toNat) % 2 ^ 32) (by omega)
        (Nat.mod_lt _ (by decide))
      refine ⟨h₁.trans ?_, h₂⟩
      rw [natBits_refill byte hroom, bitsOf_cons, List.append_assoc]
    · rw [if_neg hroom]
      exact ⟨rfl, h, hcache, .inr (Nat.not_le.mp hroom)⟩

theorem refill_unread (b : Gb) :
    b.refill.unread.length = b.unread.length ∧ b.refill.cacheCnt = b.cacheCnt ∨
      b.refill.unread.length < b.unread.length := by
  have key : ∀ (unread : List UInt8) (cnt cache : Nat),
      (refillCache cnt cache unread).1.length = unread.length ∧
          (refillCache cnt cache unread).2.1 = cnt ∨
        (refillCache cnt cache unread).1.length < unread.length := by
    intro unread
    induction unread with
    | nil => exact fun _ _ => .inl ⟨rfl, rfl⟩
    | cons byte rest ih =>
      intro cnt cache
      rw [refillCache]
      by_cases hroom : cnt ≤ 24
      · rw [if_pos hroom, List.length_cons]
        rcases ih (cnt + 8) ((cache <<< 8 ||| byte.toNat) % 2 ^ 32) with h | h
        · exact .inr (by rw [h.1]; exact Nat.lt_succ_self _)
        · exact .inr (Nat.lt_succ_of_lt h)
      · rw [if_neg hroom]
        exact .inl ⟨rfl, rfl⟩
  exact key b.unread b.cacheCnt b.cache

theorem refill_suffix (b : Gb) : b.refill.unread <:+ b.unread := by
  have key : ∀ (unread : List UInt8) (cnt cache : Nat),
      (refillCache cnt cache unread).1 <:+ unread := by
    intro unread
    induction unread with
    | nil => exact fun _ _ => List.suffix_refl []
    | cons byte rest ih =>
      intro cnt cache
      rw [refillCache]
      by_cases hroom : cnt ≤ 24
      · rw [if_pos hroom]
        exact (ih _ _).trans (List.suffix_cons byte rest)
      · simp only [if_neg hroom, List.suffix_refl]
  exact key b.unread b.cacheCnt b.cache

theorem refill_spec (h : b.Wf) :
    b.refill.avail = b.avail ∧ b.refill.Wf ∧ (b.refill.unread = [] ∨ 24 < b.refill.cacheCnt) ∧
      b.refill.numZeroes = b.numZeroes :=
  have hspec := refillCache_spec b.cacheCnt b.cache b.unread h.cnt_le h.cache_lt
  ⟨hspec.1, ⟨hspec.2.1, hspec.2.2.1⟩, hspec.2.2.2, rfl⟩

theorem load_spec {k : Nat} (h : k ≤ b.cacheCnt) :
    b.load k = .ok (ofBits (b.avail.take k)) := by
  rw [Gb.load, if_neg (Nat.not_lt.mpr h)]
  congr 1
  obtain ⟨j, hj⟩ := Nat.exists_eq_add_of_le h
  rw [Gb.avail, hj, natBits_add, List.append_assoc, List.take_left' (natBits_length k _),
    ofBits_natBits, Nat.add_sub_cancel_left]

theorem advance_spec {k : Nat} (h : k ≤ b.cacheCnt) (hwf : b.Wf) :
    (b.advance k).avail = b.avail.drop k ∧ (b.advance k).Wf := by
  constructor
  · obtain ⟨j, hj⟩ := Nat.exists_eq_add_of_le h
    rw [Gb.avail, Gb.avail, hj, natBits_add, List.append_assoc,
      List.drop_left' (natBits_length k _)]
    show natBits (b.cacheCnt - k) b.cache ++ bitsOf b.unread = _
    rw [hj, Nat.add_sub_cancel_left]
  · exact ⟨Nat.le_trans (Nat.sub_le _ _) hwf.cnt_le, hwf.cache_lt⟩

/-! ## Codes -/

/-- The result of parsing a code at the front of these bits, and the bits behind it. -/
def parseBits (tbl : HuffTable) (bits : List Bool) : Code × List Bool :=
  if bits.length < tbl.bitsInIndex then (.needMore, bits)
  else
    let values := tbl.values (ofBits (bits.take tbl.bitsInIndex))
    if values ≠ 0 then (.gotCode (values % 2 ^ 12), bits.drop (values / 2 ^ 12))
    else if bits.length < 13 then (.needMore, bits)
    else
      let blob := ofBits (bits.take 12)
      if blob = 1 then (.hitEol, bits.drop 12)
      else if blob = 0 then (.fill, bits.drop 12)
      else (.badCode, bits)

/-- No code is longer than the index, and the index fits into the cache. -/
structure HuffTable.Good (tbl : HuffTable) : Prop where
  index_le : tbl.bitsInIndex ≤ 13
  code_le : ∀ blob, tbl.values blob / 2 ^ 12 ≤ tbl.bitsInIndex
  code_pos : ∀ blob, tbl.values blob ≠ 0 → 0 < tbl.values blob / 2 ^ 12

theorem values_mem (tbl : HuffTable) (blob : Nat) :
    tbl.values blob ∈ tbl.valueTbl ∨ tbl.values blob = 0 := by
  rw [HuffTable.values]
  by_cases h : stretchAt tbl.indexTbl blob < tbl.valueTbl.length
  · rw [getElem!_pos tbl.valueTbl _ h]
    exact .inl (List.getElem_mem h)
  · rw [getElem!_neg tbl.valueTbl _ h]
    exact .inr rfl

theorem good_of_forall (hindex : tbl.bitsInIndex ≤ 13)
    (h : ∀ v ∈ tbl.valueTbl, v / 2 ^ 12 ≤ tbl.bitsInIndex ∧ (v ≠ 0 → 0 < v / 2 ^ 12)) :
    tbl.Good := by
  refine ⟨hindex, fun blob => ?_, fun blob hne => ?_⟩
  · rcases values_mem tbl blob with hmem | hzero
    · exact (h _ hmem).1
    · rw [hzero]
      exact Nat.zero_le _
  · rcases values_mem tbl blob with hmem | hzero
    · exact (h _ hmem).2 hne
    · exact absurd hzero hne

theorem whiteTable_good : whiteTable.Good := good_of_forall (by decide) (by decide +kernel)

theorem blackTable_good : blackTable.Good := good_of_forall (by decide) (by decide +kernel)

theorem vertTable_good : vertTable.Good := good_of_forall (by decide) (by decide +kernel)

theorem runTable_good (white : Bool) : (runTable white).Good := by
  cases white with
  | false => exact blackTable_good
  | true => exact whiteTable_good

structure Parses (b b' : Gb) (bits : List Bool) : Prop where
  avail : b'.avail = bits
  wf : b'.Wf
  numZeroes : b'.numZeroes = b.numZeroes
  suffix : b'.unread <:+ b.unread

def LeavesABit (code : Code) (b : Gb) : Prop := code = .hitEol → 0 < b.cacheCnt

theorem parseCodeRoutine_spec (htbl : tbl.Good) (hwf : b.Wf) :
    ∃ b', parseCodeRoutine b tbl = .ok ((parseBits tbl b.avail).1, b') ∧
      Parses b b' (parseBits tbl b.avail).2 ∧ LeavesABit (parseBits tbl b.avail).1 b' := by
  obtain ⟨havail, hwf', hfull, hzeroes⟩ := refill_spec hwf
  have hlen := Gb.avail_length b.refill
  rw [havail] at hlen
  have hindex := htbl.index_le
  -- what the cache lacks, the input lacks
  have hshort : ∀ k ≤ 13, b.refill.cacheCnt < k ↔ b.avail.length < k := by
    intro k hk
    rcases hfull with hnil | hmany
    · rw [hnil, List.length_nil] at hlen
      lia
    · lia
  rw [parseCodeRoutine, parseBits]
  dsimp only
  by_cases hneed : b.avail.length < tbl.bitsInIndex
  · rw [if_pos hneed, if_pos ((hshort _ hindex).mpr hneed)]
    exact ⟨b.refill, rfl, ⟨havail, hwf', hzeroes, refill_suffix b⟩, fun h => by cases h⟩
  rw [if_neg hneed, if_neg (fun h => hneed ((hshort _ hindex).mp h)),
    load_spec (Nat.not_lt.mp fun h => hneed ((hshort _ hindex).mp h)), havail, ok_bind]
  generalize hv : tbl.values (ofBits (b.avail.take tbl.bitsInIndex)) = values
  by_cases hcode : values ≠ 0
  · rw [if_pos hcode, if_pos hcode]
    have hle : values / 2 ^ 12 ≤ b.refill.cacheCnt := by
      have hcode_le := htbl.code_le (ofBits (b.avail.take tbl.bitsInIndex))
      have hcnt := Nat.not_lt.mp fun h => hneed ((hshort _ hindex).mp h)
      rw [hv] at hcode_le
      exact Nat.le_trans hcode_le hcnt
    obtain ⟨hadv, hadvwf⟩ := advance_spec hle hwf'
    rw [havail] at hadv
    exact ⟨_, rfl, ⟨hadv, hadvwf, hzeroes, refill_suffix b⟩, fun h => by cases h⟩
  · rw [if_neg hcode, if_neg hcode]
    by_cases hmax : b.avail.length < 13
    · rw [if_pos hmax, if_pos ((hshort 13 (by decide)).mpr hmax)]
      exact ⟨b.refill, rfl, ⟨havail, hwf', hzeroes, refill_suffix b⟩, fun h => by cases h⟩
    · have hcnt : 13 ≤ b.refill.cacheCnt :=
        Nat.not_lt.mp fun h => hmax ((hshort 13 (by decide)).mp h)
      rw [if_neg hmax, if_neg (Nat.not_lt.mpr hcnt), load_spec (show 12 ≤ _ by lia), havail,
        ok_bind]
      obtain ⟨hadv, hadvwf⟩ := advance_spec (show 12 ≤ b.refill.cacheCnt by lia) hwf'
      rw [havail] at hadv
      by_cases hone : ofBits (b.avail.take 12) = 1
      · rw [if_pos hone, if_pos hone]
        exact ⟨_, rfl, ⟨hadv, hadvwf, hzeroes, refill_suffix b⟩, fun _ => by
          show 0 < b.refill.cacheCnt - 12
          lia⟩
      · rw [if_neg hone, if_neg hone]
        by_cases hzero : ofBits (b.avail.take 12) = 0
        · rw [if_pos hzero, if_pos hzero]
          exact ⟨_, rfl, ⟨hadv, hadvwf, hzeroes, refill_suffix b⟩, fun h => by cases h⟩
        · rw [if_neg hzero, if_neg hzero]
          exact ⟨_, rfl, ⟨havail, hwf', hzeroes, refill_suffix b⟩, fun h => by cases h⟩

/-- **`PARSE_CODE` parses the available bits.** -/
theorem parseCode_spec (htbl : tbl.Good) (hwf : b.Wf) :
    ∃ b', parseCode b tbl = .ok ((parseBits tbl b.avail).1, b') ∧
      Parses b b' (parseBits tbl b.avail).2 ∧ LeavesABit (parseBits tbl b.avail).1 b' := by
  rw [parseCode]
  by_cases hneed : b.cacheCnt < tbl.bitsInIndex
  · rw [if_pos hneed]
    exact parseCodeRoutine_spec htbl hwf
  · have hcnt := Nat.not_lt.mp hneed
    rw [if_neg hneed, load_spec hcnt, ok_bind]
    by_cases hcode : tbl.values (ofBits (b.avail.take tbl.bitsInIndex)) = 0
    · rw [if_pos hcode]
      exact parseCodeRoutine_spec htbl hwf
    · rw [if_neg hcode]
      have hlen := Gb.avail_length b
      have hle := Nat.le_trans (htbl.code_le (ofBits (b.avail.take tbl.bitsInIndex))) hcnt
      obtain ⟨hadv, hadvwf⟩ := advance_spec hle hwf
      have hparse : parseBits tbl b.avail
          = (.gotCode (tbl.values (ofBits (b.avail.take tbl.bitsInIndex)) % 2 ^ 12),
            b.avail.drop (tbl.values (ofBits (b.avail.take tbl.bitsInIndex)) / 2 ^ 12)) := by
        rw [parseBits, if_neg (by lia), if_pos hcode]
      rw [hparse]
      exact ⟨_, rfl, ⟨hadv, hadvwf, rfl, List.suffix_refl _⟩, fun h => by cases h⟩

theorem parseBits_length (htbl : tbl.Good) {value : Nat}
    (h : (parseBits tbl bits).1 = .gotCode value) :
    (parseBits tbl bits).2.length < bits.length := by
  rw [parseBits] at h ⊢
  by_cases hneed : bits.length < tbl.bitsInIndex
  · rw [if_pos hneed] at h
    cases h
  rw [if_neg hneed] at h ⊢
  dsimp only at h ⊢
  by_cases hcode : tbl.values (ofBits (bits.take tbl.bitsInIndex)) ≠ 0
  · rw [if_pos hcode, List.length_drop]
    have hpos := htbl.code_pos _ hcode
    have hle := htbl.code_le (ofBits (bits.take tbl.bitsInIndex))
    lia
  · rw [if_neg hcode] at h
    by_cases hmax : bits.length < 13
    · rw [if_pos hmax] at h
      cases h
    · rw [if_neg hmax] at h
      by_cases hone : ofBits (bits.take 12) = 1
      · rw [if_pos hone] at h
        cases h
      · rw [if_neg hone] at h
        by_cases hzero : ofBits (bits.take 12) = 0
        · rw [if_pos hzero] at h
          cases h
        · rw [if_neg hzero] at h
          cases h

/-! ## Flushing to an EOL -/

/-- What is behind the next EOL, where so many zeroes were seen already. -/
def skipToEol : Nat → List Bool → Option (List Bool)
  | _, [] => none
  | z, true :: l => if 11 ≤ z then some l else skipToEol 0 l
  | z, false :: l => skipToEol (z + 1) l

theorem skipToEol_true_of_ge {z : Nat} (h : 11 ≤ z) (l : List Bool) :
    skipToEol z (true :: l) = some l := by
  rw [skipToEol, if_pos h]

theorem skipToEol_of_ge {z z' : Nat} (h : 11 ≤ z) (h' : 11 ≤ z') (l : List Bool) :
    skipToEol z l = skipToEol z' l := by
  induction l generalizing z z' with
  | nil => rfl
  | cons bit l ih =>
    cases bit with
    | true => rw [skipToEol_true_of_ge h, skipToEol_true_of_ge h']
    | false =>
      rw [skipToEol, skipToEol]
      exact ih (by omega) (by omega)

theorem skipToEol_replicate (z k : Nat) (l : List Bool) :
    skipToEol z (List.replicate k false ++ l) = skipToEol (z + k) l := by
  induction k generalizing z with
  | zero => rfl
  | succ k ih =>
    rw [List.replicate_succ, List.cons_append, skipToEol, ih]
    congr 1
    omega

/-- The zeroes at the end of bits without an EOL; `none` if there is one. -/
def zeroesAfter : Nat → List Bool → Option Nat
  | z, [] => some z
  | z, true :: l => if 11 ≤ z then none else zeroesAfter 0 l
  | z, false :: l => zeroesAfter (z + 1) l

theorem skipToEol_append {z z' : Nat} {l : List Bool} (h : zeroesAfter z l = some z')
    (e : List Bool) : skipToEol z (l ++ e) = skipToEol z' e := by
  induction l generalizing z with
  | nil =>
    cases h
    rfl
  | cons bit l ih =>
    cases bit with
    | true =>
      rw [zeroesAfter] at h
      by_cases hz : 11 ≤ z
      · rw [if_pos hz] at h
        cases h
      · rw [if_neg hz] at h
        rw [List.cons_append, skipToEol, if_neg hz]
        exact ih h
    | false => exact ih h

theorem countCache_spec (cache cnt z : Nat) (hz : z < 11) (e : List Bool) :
    skipToEol z (natBits cnt cache ++ e)
        = skipToEol (countCache cache cnt z).2
            (natBits (countCache cache cnt z).1 cache ++ e) ∧
      (countCache cache cnt z).1 ≤ cnt ∧ (countCache cache cnt z).2 ≤ 11 ∧
      ((countCache cache cnt z).2 < 11 → (countCache cache cnt z).1 = 0) := by
  induction cnt generalizing z with
  | zero => exact ⟨rfl, Nat.le_refl 0, by show z ≤ 11; omega, fun _ => rfl⟩
  | succ cnt ih =>
    rw [countCache, natBits_succ, List.cons_append]
    cases hbit : cache.testBit cnt with
    | true =>
      rw [if_pos rfl, skipToEol, if_neg (by omega)]
      obtain ⟨h₁, h₂, h₃, h₄⟩ := ih 0 (by decide)
      exact ⟨h₁, Nat.le_succ_of_le h₂, h₃, h₄⟩
    | false =>
      rw [if_neg Bool.false_ne_true, skipToEol]
      by_cases hstop : 11 ≤ z + 1
      · rw [if_pos hstop]
        exact ⟨rfl, Nat.le_succ cnt, by show z + 1 ≤ 11; omega, fun h => by
          have h : z + 1 < 11 := h
          omega⟩
      · rw [if_neg hstop]
        obtain ⟨h₁, h₂, h₃, h₄⟩ := ih (z + 1) (by omega)
        exact ⟨h₁, Nat.le_succ_of_le h₂, h₃, h₄⟩

theorem byteBits_leftZeroes (byt : UInt8) :
    ∃ l, byteBits byt = List.replicate (baLeftZeroesTbl byt) false ++ l :=
  byte_cases (P := fun byt => ∃ l, byteBits byt = List.replicate (baLeftZeroesTbl byt) false ++ l)
    (fun n hn => ⟨(byteBits (UInt8.ofNat n)).drop (baLeftZeroesTbl (UInt8.ofNat n)), by
      have hall : ∀ n < 256, (byteBits (UInt8.ofNat n)).take (baLeftZeroesTbl (UInt8.ofNat n))
          = List.replicate (baLeftZeroesTbl (UInt8.ofNat n)) false := by decide +kernel
      rw [← hall n hn, List.take_append_drop]⟩) byt

theorem zeroesAfter_replicate (k z : Nat) (l : List Bool) :
    zeroesAfter z (List.replicate k false ++ l) = zeroesAfter (z + k) l := by
  induction k generalizing z with
  | zero => rfl
  | succ k ih =>
    rw [List.replicate_succ, List.cons_append, zeroesAfter, ih, Nat.add_right_comm, Nat.add_assoc]

theorem zeroesAfter_zero (byt : UInt8) :
    zeroesAfter 0 (byteBits byt)
      = some (if byt ≠ 0 then baRightZeroesTbl byt else baLeftZeroesTbl byt) :=
  byte_cases (P := fun byt => zeroesAfter 0 (byteBits byt)
    = some (if byt ≠ 0 then baRightZeroesTbl byt else baLeftZeroesTbl byt)) (by decide +kernel) byt

theorem zeroesAfter_byte (byt : UInt8) {z : Nat} (hz : z + baLeftZeroesTbl byt < 11) :
    zeroesAfter z (byteBits byt)
      = some (if byt ≠ 0 then baRightZeroesTbl byt else z + baLeftZeroesTbl byt) := by
  by_cases hbyt : byt = 0
  · subst hbyt
    have hbits : byteBits 0 = List.replicate 8 false ++ [] := by decide
    rw [hbits, zeroesAfter_replicate]
    rfl
  · -- the first one of the byte ends the zeroes that came before
    have hone : ∃ l, byteBits byt = List.replicate (baLeftZeroesTbl byt) false ++ true :: l := by
      obtain ⟨l, hl⟩ := byteBits_leftZeroes byt
      have hhead := byte_cases (P := fun byt => byt ≠ 0 →
        ((byteBits byt).drop (baLeftZeroesTbl byt)).head? = some true) (by decide +kernel) byt hbyt
      rw [hl, List.drop_left' List.length_replicate] at hhead
      obtain ⟨l', rfl⟩ : ∃ l', l = true :: l' := List.head?_eq_some_iff.mp hhead
      exact ⟨l', hl⟩
    obtain ⟨l, hl⟩ := hone
    have hzero := zeroesAfter_zero byt
    rw [if_pos hbyt, hl, zeroesAfter_replicate, zeroesAfter, if_neg (by omega)] at hzero
    rw [if_pos hbyt, hl, zeroesAfter_replicate, zeroesAfter, if_neg (by omega), hzero]

theorem rightZeroes_lt {byt : UInt8} (h : byt ≠ 0) : baRightZeroesTbl byt < 8 :=
  byte_cases (P := fun byt => byt ≠ 0 → baRightZeroesTbl byt < 8) (by decide +kernel) byt h

theorem countBytes_spec (l : List UInt8) (z : Nat) (hz : z < 11) (e : List Bool) :
    ((countBytes l z).1 = true → 11 ≤ (countBytes l z).2.2 ∧
      skipToEol z (bitsOf l ++ e) = skipToEol 11 (bitsOf (countBytes l z).2.1 ++ e)) ∧
    ((countBytes l z).1 = false → (countBytes l z).2.1 = [] ∧ (countBytes l z).2.2 < 11 ∧
      skipToEol z (bitsOf l ++ e) = skipToEol (countBytes l z).2.2 e) := by
  induction l generalizing z with
  | nil => exact ⟨(fun h => nomatch h), (fun _ => ⟨rfl, hz, rfl⟩)⟩
  | cons byt l ih =>
    rw [countBytes]
    by_cases hfound : 11 ≤ z + baLeftZeroesTbl byt
    · rw [if_pos hfound]
      refine ⟨(fun _ => ⟨hfound, ?_⟩), (fun h => nomatch h)⟩
      show skipToEol z (bitsOf (byt :: l) ++ e) = skipToEol 11 (bitsOf (byt :: l) ++ e)
      obtain ⟨rest, hrest⟩ := byteBits_leftZeroes byt
      rw [bitsOf_cons, hrest, List.append_assoc, List.append_assoc, skipToEol_replicate,
        skipToEol_replicate]
      exact skipToEol_of_ge hfound (by omega) _
    · rw [if_neg hfound, bitsOf_cons, List.append_assoc,
        skipToEol_append (zeroesAfter_byte byt (Nat.not_le.mp hfound))]
      refine ih _ ?_
      by_cases hne : byt ≠ 0
      · rw [if_pos hne]
        have := rightZeroes_lt hne
        omega
      · rw [if_neg hne]
        omega

/-! ### From 11 zeroes on -/

theorem dropZeroes_spec (cache cnt : Nat) (h : cache % 2 ^ cnt ≠ 0) :
    0 < dropZeroes cache cnt ∧ dropZeroes cache cnt ≤ cnt ∧
      natBits cnt cache = List.replicate (cnt - dropZeroes cache cnt) false
        ++ natBits (dropZeroes cache cnt) cache ∧
      natBits (dropZeroes cache cnt) cache = true :: natBits (dropZeroes cache cnt - 1) cache := by
  induction cnt with
  | zero => exact absurd (Nat.mod_one _) h
  | succ cnt ih =>
    rw [dropZeroes]
    cases hbit : cache.testBit cnt with
    | true =>
      rw [if_pos rfl, Nat.sub_self, Nat.add_sub_cancel]
      refine ⟨Nat.succ_pos cnt, Nat.le_refl _, rfl, ?_⟩
      rw [natBits_succ, hbit]
    | false =>
      rw [if_neg Bool.false_ne_true, natBits_succ, hbit]
      have hne : cache % 2 ^ cnt ≠ 0 := by
        intro hzero
        apply h
        rw [Nat.mod_pow_succ, hzero, Nat.zero_add]
        have hbit' : cache / 2 ^ cnt % 2 = 0 := by
          have := Nat.testBit_eq_decide_div_mod_eq (x := cache) (i := cnt)
          rw [hbit] at this
          have := of_decide_eq_false this.symm
          lia
        rw [hbit', Nat.mul_zero]
      obtain ⟨h₁, h₂, h₃, h₄⟩ := ih hne
      refine ⟨h₁, Nat.le_succ_of_le h₂, ?_, h₄⟩
      rw [h₃, show cnt + 1 - dropZeroes cache cnt = (cnt - dropZeroes cache cnt) + 1 by lia,
        List.replicate_succ, List.cons_append]

theorem skipToEol_dropWhile (l : List UInt8) (e : List Bool) :
    skipToEol 11 (bitsOf (l.dropWhile (· = 0)) ++ e) = skipToEol 11 (bitsOf l ++ e) := by
  induction l with
  | nil => rfl
  | cons byt l ih =>
    by_cases hzero : byt = 0
    · subst hzero
      rw [List.dropWhile_cons_of_pos (by decide), ih, bitsOf_cons, byteBits_zero,
        List.append_assoc, skipToEol_replicate]
      exact skipToEol_of_ge (by decide) (by decide) _
    · rw [List.dropWhile_cons_of_neg (by simpa using hzero)]

/-- What flushing from 11 zeroes on comes to: it is behind the EOL, or all that is left does
not reach behind it. -/
inductive ScansToOne (leaveABit : Bool) (b : Gb) : Bool → Gb → Prop
  | found {b' : Gb} (h : skipToEol 11 b.avail = some b'.avail)
      (hmore : ∀ e, skipToEol 11 (b.avail ++ e) = some (b'.avail ++ e))
      (hleave : leaveABit = true → 0 < b'.cacheCnt) (hwf : b'.Wf) (hzeroes : b'.numZeroes = 0)
      (hsuffix : b'.unread <:+ b.unread) : ScansToOne leaveABit b true b'
  | short {b' : Gb} (h : ∀ e, skipToEol 11 (b.avail ++ e) = skipToEol 11 (b'.avail ++ e))
      (hunread : b'.unread = []) (hcnt : b'.cacheCnt ≤ 1) (hwf : b'.Wf)
      (hzeroes : b'.numZeroes = b.numZeroes) : ScansToOne leaveABit b false b'

theorem ScansToOne.of_eq {leaveABit r : Bool} {b₂ b' : Gb}
    (havail : ∀ e, skipToEol 11 (b.avail ++ e) = skipToEol 11 (b₂.avail ++ e))
    (hzeroes : b₂.numZeroes = b.numZeroes) (hsuffix : b₂.unread <:+ b.unread)
    (h : ScansToOne leaveABit b₂ r b') : ScansToOne leaveABit b r b' := by
  cases h with
  | found h hmore hleave hwf hz hs =>
    refine .found ?_ (fun e => (havail e).trans (hmore e)) hleave hwf hz (hs.trans hsuffix)
    have := havail []
    rw [List.append_nil, List.append_nil] at this
    exact this.trans h
  | short h hunread hcnt hwf hz =>
    exact .short (fun e => (havail e).trans (h e)) hunread hcnt hwf (hz.trans hzeroes)

theorem clearedCache {cache : Nat} (hwf : b.Wf)
    (h : (if b.cacheCnt < 32 then b.cache % 2 ^ b.cacheCnt else b.cache) = cache) :
    natBits b.cacheCnt cache = natBits b.cacheCnt b.cache ∧ cache < 2 ^ b.cacheCnt ∧
      cache < 2 ^ 32 := by
  by_cases hlt : b.cacheCnt < 32
  · rw [if_pos hlt] at h
    subst h
    have hmod : b.cache % 2 ^ b.cacheCnt < 2 ^ b.cacheCnt := Nat.mod_lt _ (Nat.two_pow_pos _)
    exact ⟨natBits_mod (Nat.le_refl _) _, hmod,
      Nat.lt_of_lt_of_le hmod (Nat.pow_le_pow_right (by decide) hwf.cnt_le)⟩
  · have hfull : b.cacheCnt = 32 := Nat.le_antisymm hwf.cnt_le (Nat.not_lt.mp hlt)
    rw [if_neg hlt] at h
    subst h
    exact ⟨rfl, by rw [hfull]; exact hwf.cache_lt, hwf.cache_lt⟩

theorem scanToOne_spec (leaveABit : Bool) (rounds : Nat) (b : Gb) (hwf : b.Wf)
    (h : b.unread.length + 2 ≤ rounds ∨
      ((b.cacheCnt = 0 ∨ (leaveABit = true ∧ b.cacheCnt = 1)) ∧ b.unread.length + 1 ≤ rounds)) :
    ∃ r b', b.scanToOne leaveABit rounds = .ok (r, b') ∧ ScansToOne leaveABit b r b' := by
  induction rounds generalizing b with
  | zero => lia
  | succ rounds ih =>
    obtain ⟨havail, hwf', hfull, hzeroes⟩ := refill_spec hwf
    have hlen := Gb.avail_length b.refill
    have hlen' := Gb.avail_length b
    rw [havail] at hlen
    rw [Gb.scanToOne]
    dsimp only
    by_cases hshort : b.refill.cacheCnt = 0 ∨ (leaveABit = true ∧ b.refill.cacheCnt = 1)
    · rw [if_pos hshort]
      refine ⟨false, b.refill, rfl, .short (fun e => by rw [havail]) ?_ ?_ hwf' hzeroes⟩
      · rcases hfull with hnil | hmany
        · exact hnil
        · lia
      · rcases hshort with hzero | ⟨-, hone⟩
        · exact hzero ▸ Nat.zero_le 1
        · exact Nat.le_of_eq hone
    rw [if_neg hshort]
    -- the cache, with the unused bits cleared
    generalize hcache : (if b.refill.cacheCnt < 32 then b.refill.cache % 2 ^ b.refill.cacheCnt
      else b.refill.cache) = cache
    obtain ⟨hbits, hlt, hlt'⟩ := clearedCache hwf' hcache
    have hread : b.refill.unread.length + 1 ≤ rounds := by
      rcases refill_unread b with hsame | hless
      · rcases h with h | ⟨h, -⟩
        · lia
        · rw [hsame.2] at hshort
          exact absurd h hshort
      · lia
    by_cases hzero : cache = 0
    · rw [if_pos hzero, if_neg (fun h => h.1 hzero), if_pos rfl]
      set b₃ : Gb := { b.refill with
        unread := b.refill.unread.dropWhile (· = 0), cacheCnt := 0, cache := cache } with hb₃
      have hdrop : b₃.unread.length ≤ b.refill.unread.length :=
        (List.dropWhile_suffix _).length_le
      obtain ⟨r, b', hrun, hscan⟩ := ih b₃ ⟨Nat.zero_le _, hlt'⟩ (.inr ⟨.inl rfl, by lia⟩)
      refine ⟨r, b', hrun, ScansToOne.of_eq (fun e => ?_)
        (show b₃.numZeroes = b.numZeroes from hzeroes)
        ((List.dropWhile_suffix _).trans (refill_suffix b)) hscan⟩
      calc skipToEol 11 (b.avail ++ e)
          = skipToEol 11 (List.replicate b.refill.cacheCnt false
              ++ (bitsOf b.refill.unread ++ e)) := by
            rw [← havail, Gb.avail, ← hbits, hzero, natBits_of_zero, List.append_assoc]
        _ = skipToEol 11 (bitsOf b.refill.unread ++ e) := by
            rw [skipToEol_replicate]
            exact skipToEol_of_ge (Nat.le_add_right 11 _) (Nat.le_refl 11) _
        _ = skipToEol 11 (b₃.avail ++ e) := (skipToEol_dropWhile _ e).symm
    · rw [if_neg hzero]
      obtain ⟨hpos, hle, hskip, htrue⟩ := dropZeroes_spec cache b.refill.cacheCnt
        (by rw [Nat.mod_eq_of_lt hlt]; exact hzero)
      have hscan : ∀ e, skipToEol 11 (b.avail ++ e)
          = skipToEol 11 (natBits (dropZeroes cache b.refill.cacheCnt) cache
              ++ (bitsOf b.refill.unread ++ e)) := by
        intro e
        rw [← havail, Gb.avail, ← hbits, hskip, List.append_assoc, List.append_assoc,
          skipToEol_replicate]
        exact skipToEol_of_ge (Nat.le_add_right 11 _) (Nat.le_refl 11) _
      generalize dropZeroes cache b.refill.cacheCnt = cnt at hpos hle htrue hscan
      by_cases hend : leaveABit = false ∨ 2 ≤ cnt
      · rw [if_pos ⟨hzero, by simpa using hend⟩]
        have hfound : ∀ e, skipToEol 11 (b.avail ++ e)
            = some (natBits (cnt - 1) cache ++ (bitsOf b.refill.unread ++ e)) := by
          intro e
          rw [hscan e, htrue, List.cons_append, skipToEol_true_of_ge (Nat.le_refl 11)]
        refine ⟨true, _, rfl, .found ?_ (fun e => ?_) (fun hleave => ?_) ⟨?_, hlt'⟩ rfl
          (refill_suffix b)⟩
        · have := hfound []
          rwa [List.append_nil, List.append_nil] at this
        · rw [hfound e, Gb.avail, List.append_assoc]
        · rcases hend with hend | hend
          · rw [hend] at hleave
            cases hleave
          · exact Nat.sub_pos_of_lt hend
        · exact Nat.le_trans (Nat.sub_le _ _) (Nat.le_trans hle hwf'.cnt_le)
      · -- the one is the last bit of the cache, and a bit must be left
        have hleave : leaveABit = true := by
          cases leaveABit with
          | true => rfl
          | false => exact absurd (.inl rfl) hend
        have hcnt : cnt = 1 := by lia
        rw [if_neg (fun h => hend (by simpa using h.2)), if_neg (by lia)]
        set b₃ : Gb := { b.refill with cacheCnt := cnt, cache := cache } with hb₃
        obtain ⟨r, b', hrun, hscan'⟩ := ih b₃
          ⟨Nat.le_trans hle hwf'.cnt_le, hlt'⟩ (.inr ⟨.inr ⟨hleave, hcnt⟩, hread⟩)
        refine ⟨r, b', hrun, ScansToOne.of_eq (fun e => ?_)
          (show b₃.numZeroes = b.numZeroes from hzeroes) (refill_suffix b) hscan'⟩
        rw [hscan e, Gb.avail, List.append_assoc]

/-! ### The whole flush -/

def Gb.zeroesSeen (b : Gb) (gotFill : Bool) : Nat := if gotFill then 11 else b.numZeroes

/-- What a flush comes to: it is behind the EOL, or it has looked at all that there is, and the
next call goes on from there. -/
inductive Flushes (leaveABit gotFill : Bool) (b : Gb) : Bool → Gb → Prop
  | found {b' : Gb} (h : skipToEol (b.zeroesSeen gotFill) b.avail = some b'.avail)
      (hmore : ∀ e, skipToEol (b.zeroesSeen gotFill) (b.avail ++ e) = some (b'.avail ++ e))
      (hleave : leaveABit = true → 0 < b'.cacheCnt) (hwf : b'.Wf) (hzeroes : b'.numZeroes = 0)
      (hsuffix : b'.unread <:+ b.unread) : Flushes leaveABit gotFill b true b'
  | short {b' : Gb} (h : ∀ e, skipToEol (b.zeroesSeen gotFill) (b.avail ++ e)
        = skipToEol (b'.zeroesSeen gotFill) (b'.avail ++ e))
      (hunread : b'.unread = [])
      (hcnt : b'.cacheCnt ≤ 1 ∨ (gotFill = false ∧ b'.cacheCnt ≤ b.cacheCnt)) (hwf : b'.Wf) :
      Flushes leaveABit gotFill b false b'

theorem ScansToOne.flushes {leaveABit gotFill r : Bool} {b₂ b' : Gb}
    (havail : ∀ e, skipToEol (b.zeroesSeen gotFill) (b.avail ++ e) = skipToEol 11 (b₂.avail ++ e))
    (hseen : 11 ≤ b₂.zeroesSeen gotFill) (hsuffix : b₂.unread <:+ b.unread)
    (h : ScansToOne leaveABit b₂ r b') : Flushes leaveABit gotFill b r b' := by
  cases h with
  | found h hmore hleave hwf hz hs =>
    refine .found ?_ (fun e => (havail e).trans (hmore e)) hleave hwf hz (hs.trans hsuffix)
    have := havail []
    rw [List.append_nil, List.append_nil] at this
    exact this.trans h
  | short h hunread hcnt hwf hz =>
    refine .short (fun e => ?_) hunread (.inl hcnt) hwf
    rw [havail, h]
    refine skipToEol_of_ge (Nat.le_refl 11) ?_ _
    rw [Gb.zeroesSeen, hz]
    exact hseen

theorem countBytes_cons (byt : UInt8) (l : List UInt8) {z : Nat} (hz : 11 ≤ z) :
    countBytes (byt :: l) z = (true, byt :: l, z + baLeftZeroesTbl byt) := by
  rw [countBytes]
  exact if_pos (Nat.le_add_right_of_le hz)

theorem countZeroes_spec (hz : b.numZeroes < 11) (hwf : b.Wf) :
    (b.countZeroes.1 = true → 11 ≤ b.countZeroes.2.numZeroes ∧ b.countZeroes.2.Wf ∧
      ∀ e, skipToEol b.numZeroes (b.avail ++ e) = skipToEol 11 (b.countZeroes.2.avail ++ e)) ∧
    (b.countZeroes.1 = false → b.countZeroes.2.unread = [] ∧ b.countZeroes.2.Wf ∧
      ∀ e, skipToEol b.numZeroes (b.avail ++ e)
        = skipToEol b.countZeroes.2.numZeroes (b.countZeroes.2.avail ++ e)) := by
  have hcache := countCache_spec b.cache b.cacheCnt b.numZeroes hz
  obtain ⟨-, hle, hmost, hless⟩ := hcache []
  have hscan : ∀ e, skipToEol b.numZeroes (b.avail ++ e)
      = skipToEol (countCache b.cache b.cacheCnt b.numZeroes).2
          (natBits (countCache b.cache b.cacheCnt b.numZeroes).1 b.cache
            ++ (bitsOf b.unread ++ e)) := by
    intro e
    rw [Gb.avail, List.append_assoc]
    exact (hcache _).1
  rw [Gb.countZeroes]
  generalize countCache b.cache b.cacheCnt b.numZeroes = c at hle hmost hless hscan
  obtain ⟨cacheCnt, numZeroes⟩ := c
  have hwf' : cacheCnt ≤ 32 := Nat.le_trans hle hwf.cnt_le
  dsimp only at hle hmost hless hscan ⊢
  by_cases hlt : numZeroes < 11
  · have hcnt := hless hlt
    subst hcnt
    have hbytes := countBytes_spec b.unread numZeroes hlt
    refine ⟨fun h => ⟨((hbytes []).1 h).1, ⟨hwf', hwf.cache_lt⟩, fun e => ?_⟩,
      fun h => ⟨((hbytes []).2 h).1, ⟨hwf', hwf.cache_lt⟩, fun e => ?_⟩⟩
    · exact (hscan e).trans ((hbytes e).1 h).2
    · rw [hscan e, natBits, List.nil_append, ((hbytes e).2 h).2.2, Gb.avail]
      dsimp only
      rw [((hbytes e).2 h).1]
      rfl
  · have heleven : numZeroes = 11 := Nat.le_antisymm hmost (Nat.not_lt.mp hlt)
    subst heleven
    cases hunread : b.unread with
    | nil =>
      refine ⟨(by rintro ⟨⟩), fun _ => ⟨rfl, ⟨hwf', hwf.cache_lt⟩, fun e => ?_⟩⟩
      rw [hscan e, hunread, Gb.avail, List.append_assoc]
      rfl
    | cons byt rest =>
      rw [countBytes_cons byt rest (Nat.le_refl 11)]
      refine ⟨fun _ => ⟨Nat.le_add_right 11 _, ⟨hwf', hwf.cache_lt⟩, fun e => ?_⟩,
        (by rintro ⟨⟩)⟩
      rw [hscan e, hunread, Gb.avail, List.append_assoc]

theorem countBytes_suffix (l : List UInt8) (z : Nat) : (countBytes l z).2.1 <:+ l := by
  induction l generalizing z with
  | nil => exact List.suffix_refl []
  | cons byt rest ih =>
    rw [countBytes]
    by_cases hfound : 11 ≤ z + baLeftZeroesTbl byt
    · simp only [if_pos hfound, List.suffix_refl]
    · rw [if_neg hfound]
      exact (ih _).trans (List.suffix_cons byt rest)

theorem countCache_le (cache cnt z : Nat) : (countCache cache cnt z).1 ≤ cnt := by
  induction cnt generalizing z with
  | zero => exact Nat.le_refl 0
  | succ cnt ih =>
    rw [countCache]
    by_cases hbit : cache.testBit cnt = true
    · rw [if_pos hbit]
      exact Nat.le_succ_of_le (ih 0)
    · rw [if_neg hbit]
      by_cases hstop : 11 ≤ z + 1
      · rw [if_pos hstop]
        exact Nat.le_succ cnt
      · rw [if_neg hstop]
        exact Nat.le_succ_of_le (ih (z + 1))

/-- **`bits_flush_to_eol` returns, behind the next EOL of the available bits if they have
one.** -/
theorem bitsFlushToEol_spec (gotFill leaveABit : Bool) (hwf : b.Wf) :
    ∃ r b', bitsFlushToEol b gotFill leaveABit = .ok (r, b') ∧
      Flushes leaveABit gotFill b r b' := by
  rw [bitsFlushToEol]
  by_cases hseen : gotFill = true ∨ 11 ≤ b.numZeroes
  · rw [if_pos hseen]
    obtain ⟨r, b', hrun, hscan⟩ := scanToOne_spec leaveABit _ b hwf (.inl (Nat.le_refl _))
    have hge : 11 ≤ b.zeroesSeen gotFill := by
      rw [Gb.zeroesSeen]
      cases gotFill with
      | true => exact Nat.le_refl 11
      | false => exact hseen.resolve_left Bool.false_ne_true
    exact ⟨r, b', hrun, hscan.flushes (fun e => skipToEol_of_ge hge (Nat.le_refl 11) _) hge
      (List.suffix_refl _)⟩
  · rw [if_neg hseen]
    push Not at hseen
    have hfill : gotFill = false := Bool.eq_false_iff.mpr hseen.1
    subst hfill
    obtain ⟨hfound, hshort⟩ := countZeroes_spec hseen.2 hwf
    have hsuffix : b.countZeroes.2.unread <:+ b.unread := countBytes_suffix _ _
    have hcnt : b.countZeroes.2.cacheCnt ≤ b.cacheCnt := countCache_le _ _ _
    generalize b.countZeroes = c at hfound hshort hsuffix hcnt
    obtain ⟨found, b₁⟩ := c
    cases found with
    | false =>
      obtain ⟨hunread, hwf₁, hscan⟩ := hshort rfl
      exact ⟨false, b₁, rfl, .short hscan hunread (.inr ⟨rfl, hcnt⟩) hwf₁⟩
    | true =>
      obtain ⟨hseen₁, hwf₁, havail⟩ := hfound rfl
      obtain ⟨r, b', hrun, hscan⟩ := scanToOne_spec leaveABit _ b₁ hwf₁ (.inl (Nat.le_refl _))
      exact ⟨r, b', hrun, hscan.flushes havail hseen₁ hsuffix⟩

end Hplip.Ip
