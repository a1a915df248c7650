import Hplip.Lib.Scan
import Hplip.Lib.Checked
import Hplip.Lib.Bits
import Hplip.Ip.FaxEncode

/-!
# Pixels of a fax row

`pix` reads a pixel of a row. `scan_to` goes over whole bytes and over the end of the row;
what it returns is the first position of another colour, at most the end of the row.
-/

namespace Hplip.Ip

open Scan

export Checked (ok_bind bind_eq_ok)

/-! ## Bits of a byte -/

/-- The pixel `i` of a byte, from the left. -/
def bytePix (b : UInt8) (i : Nat) : Bool := b.toNat.testBit (7 - i)

/-- The pixel `i` of a row. -/
def pix (buf : List UInt8) (i : Nat) : Bool := bytePix (buf.getD (i / 8) 0) (i % 8)

theorem byte_cases {P : UInt8 → Prop} (h : ∀ n < 256, P (UInt8.ofNat n)) (b : UInt8) : P b := by
  have := h b.toNat b.toNat_lt
  rwa [UInt8.ofNat_toNat] at this

theorem bytePix_leftZeroes (b : UInt8) :
    (∀ i < baLeftZeroesTbl b, bytePix b i = false) ∧
      (b ≠ 0 → baLeftZeroesTbl b < 8 ∧ bytePix b (baLeftZeroesTbl b) = true) :=
  byte_cases (P := fun b => (∀ i < baLeftZeroesTbl b, bytePix b i = false) ∧
    (b ≠ 0 → baLeftZeroesTbl b < 8 ∧ bytePix b (baLeftZeroesTbl b) = true))
    (by decide +kernel) b

theorem bytePix_xor_skip (b : UInt8) (skip : Bool) {i : Nat} (h : i < 8) :
    bytePix (b ^^^ skipByte skip) i = (bytePix b i ^^ skip) := by
  have hskip : ∀ skip, ∀ i < 8, bytePix (skipByte skip) i = skip := by decide
  have := hskip skip i h
  rw [bytePix] at this
  rw [bytePix, UInt8.toNat_xor, Nat.testBit_xor, this, bytePix]

theorem bytePix_and_mask (b : UInt8) {k i : Nat} (hk : k < 8) (hi : i < 8) :
    bytePix (b &&& (0xFF >>> UInt8.ofNat k)) i = (decide (k ≤ i) && bytePix b i) := by
  have hmask : ∀ k < 8, ∀ i < 8, bytePix (0xFF >>> UInt8.ofNat k) i = decide (k ≤ i) := by decide
  have := hmask k hk i hi
  rw [bytePix] at this
  rw [bytePix, UInt8.toNat_and, Nat.testBit_and, this, Bool.and_comm, bytePix]

/-! ## `scan_to` -/

variable {skip : Bool} {buf : List UInt8} {start n r : Nat}

theorem pix_add (buf : List UInt8) (j : Nat) {i : Nat} (h : i < 8) :
    pix buf (8 * j + i) = bytePix (buf.getD j 0) i := by
  rw [pix, Nat.mul_add_div (by decide), Nat.div_eq_of_lt h, Nat.add_zero, Nat.mul_add_mod,
    Nat.mod_eq_of_lt h]

theorem stop_at (start : Nat) {byte : UInt8} {j : Nat} {s : Nat} (hs : 8 * j ≤ s)
    (hbyte : ∀ i < 8, bytePix byte i = (decide (s ≤ 8 * j + i) && (pix buf (8 * j + i) ^^ skip)))
    (hne : byte ≠ 0) (hbefore : ∀ k, start ≤ k → k < s → pix buf k = skip) :
    s ≤ 8 * j + baLeftZeroesTbl byte ∧
      (∀ k, start ≤ k → k < 8 * j + baLeftZeroesTbl byte → pix buf k = skip) ∧
      pix buf (8 * j + baLeftZeroesTbl byte) = !skip := by
  obtain ⟨hzero, hone⟩ := bytePix_leftZeroes byte
  obtain ⟨hlt, hset⟩ := hone hne
  rw [hbyte _ hlt, Bool.and_eq_true, decide_eq_true_eq] at hset
  refine ⟨hset.1, fun k hk hkj => ?_, ?_⟩
  · rcases Nat.lt_or_ge k s with hks | hks
    · exact hbefore k hk hks
    · obtain ⟨i, rfl⟩ := Nat.exists_eq_add_of_le (Nat.le_trans hs hks)
      have hi := hzero i (by lia)
      rw [hbyte i (by lia), decide_eq_true hks, Bool.true_and] at hi
      simpa using hi
  · have := hset.2
    cases h : pix buf (8 * j + baLeftZeroesTbl byte) <;> cases skip <;> simp_all

theorem scanBytes_ok {l : List UInt8} {i : Nat} {byte : UInt8} {j : Nat}
    (h : scanBytes skip l i = .ok (byte, j)) :
    i ≤ j ∧ j < i + l.length ∧ (∀ k < j - i, l.getD k 0 = skipByte skip) ∧
      l.getD (j - i) 0 ≠ skipByte skip ∧ byte = l.getD (j - i) 0 ^^^ skipByte skip := by
  induction l generalizing i with
  | nil => cases h
  | cons b l ih =>
    rw [scanBytes] at h
    by_cases hb : b = skipByte skip
    · rw [if_pos hb] at h
      obtain ⟨hle, hlt, hsame, hne, hbyte⟩ := ih h
      have hsub : j - i = (j - (i + 1)) + 1 := by lia
      rw [hsub]
      refine ⟨by lia, by rw [List.length_cons]; lia, fun k hk => ?_, hne, hbyte⟩
      cases k with
      | zero => exact hb
      | succ k => exact hsame k (by lia)
    · rw [if_neg hb] at h
      cases h
      rw [Nat.sub_self, List.length_cons]
      exact ⟨Nat.le_refl _, by lia, fun k hk => absurd hk (Nat.not_lt_zero k), hb, rfl⟩

theorem scanBytes_returns (skip : Bool) {l : List UInt8} (i : Nat) {k : Nat} (hk : k < l.length)
    (hne : l.getD k 0 ≠ skipByte skip) : ∃ byte j, scanBytes skip l i = .ok (byte, j) := by
  induction l generalizing i k with
  | nil => exact absurd hk (Nat.not_lt_zero k)
  | cons b l ih =>
    rw [scanBytes]
    by_cases hb : b = skipByte skip
    · rw [if_pos hb]
      cases k with
      | zero => exact absurd hb hne
      | succ k => exact ih (i + 1) (Nat.lt_of_succ_lt_succ hk) hne
    · rw [if_neg hb]
      exact ⟨_, _, rfl⟩

theorem skipByte_pix {b : UInt8} : b = skipByte skip ↔ ∀ i < 8, bytePix b i = skip := by
  have hall : ∀ skip, ∀ n < 256, UInt8.ofNat n = skipByte skip ↔
      ∀ i < 8, bytePix (UInt8.ofNat n) i = skip := by decide +kernel
  exact byte_cases (P := fun b => b = skipByte skip ↔ ∀ i < 8, bytePix b i = skip) (hall skip) b

theorem getD_drop_zero {l : List UInt8} {m : Nat} {b : UInt8} {rest : List UInt8}
    (h : l.drop m = b :: rest) : l.getD m 0 = b ∧ rest = l.drop (m + 1) ∧ m < l.length := by
  have hlt : m < l.length := by
    by_contra hge
    rw [List.drop_of_length_le (Nat.not_lt.mp hge)] at h
    cases h
  rw [List.drop_eq_getElem_cons hlt] at h
  cases h
  exact ⟨List.getD_eq_getElem l 0 hlt, rfl, hlt⟩

theorem first_pix (skip : Bool) {first : UInt8} (hfirst : buf.getD (start / 8) 0 = first) {i : Nat} (hi : i < 8) :
    bytePix ((first ^^^ skipByte skip) &&& (0xFF >>> UInt8.ofNat (start % 8))) i
      = (decide (start ≤ 8 * (start / 8) + i) && (pix buf (8 * (start / 8) + i) ^^ skip)) := by
  rw [bytePix_and_mask _ (Nat.mod_lt start (by decide)) hi, bytePix_xor_skip _ _ hi,
    pix_add _ _ hi, hfirst]
  congr 1
  exact decide_eq_decide.mpr (by lia)

/-- **What `scan_to` returns.** -/
theorem scanTo_ok (h : scanTo skip buf start n = .ok r) :
    start ≤ n + 1 ∧ r = next (pix buf) skip n start := by
  rw [scanTo] at h
  by_cases hbad : (start : Int) < 0 ∨ (n : Int) + 1 < start
  · rw [if_pos hbad] at h
    cases h
  rw [if_neg hbad, Int.toNat_natCast] at h
  have hrange : start ≤ n + 1 := by lia
  refine ⟨hrange, ?_⟩
  -- the stop is at `p`
  suffices hstop : ∃ p, start ≤ p ∧ (∀ k, start ≤ k → k < p → pix buf k = skip) ∧
      pix buf p = !skip ∧ r = min p n by
    obtain ⟨p, hsp, hmem, hp, rfl⟩ := hstop
    rcases Nat.lt_or_ge n start with hlt | hge
    · rw [next_of_ge (Nat.le_of_lt hlt), Nat.min_eq_right (by lia)]
    · refine (next_eq (by lia) (Nat.min_le_right _ _) (fun k hk hkp => hmem k hk (by lia))
        fun hlt => ?_).symm
      rw [Nat.min_eq_left (by lia), hp]
      cases skip <;> decide
  cases hdrop : buf.drop (start / 8) with
  | nil =>
    rw [hdrop] at h
    cases h
  | cons first rest =>
    rw [hdrop] at h
    dsimp only at h
    obtain ⟨hfirst, rfl, hlen⟩ := getD_drop_zero hdrop
    have hpix := fun i (hi : i < 8) => first_pix skip hfirst hi
    generalize (first ^^^ skipByte skip) &&& (0xFF >>> UInt8.ofNat (start % 8)) = byte at h hpix
    by_cases hzero : byte = 0
    · -- the first byte has nothing to stop at
      rw [if_pos hzero] at h
      cases hscan : scanBytes skip (buf.drop (start / 8 + 1)) (start / 8 + 1) with
      | error e =>
        rw [hscan] at h
        cases h
      | ok res =>
        obtain ⟨byte', j⟩ := res
        rw [hscan] at h
        obtain ⟨hle, hlt, hsame, hne, hbyte⟩ := scanBytes_ok hscan
        have hget : ∀ k, (buf.drop (start / 8 + 1)).getD k 0 = buf.getD (start / 8 + 1 + k) 0 := by
          intro k
          rw [List.getD_eq_getElem?_getD, List.getElem?_drop, ← List.getD_eq_getElem?_getD]
        rw [hget, Nat.add_sub_cancel' hle] at hne hbyte
        have hbefore : ∀ k, start ≤ k → k < 8 * j → pix buf k = skip := by
          intro k hk hkj
          rcases Nat.lt_or_ge k (8 * (start / 8 + 1)) with hlow | hhigh
          · obtain ⟨i, hi⟩ := Nat.exists_eq_add_of_le (show 8 * (start / 8) ≤ k by lia)
            have hbit := hpix i (by lia)
            have hz : bytePix byte i = false := by
              rw [hzero, bytePix]
              exact Nat.zero_testBit _
            rw [hz, ← hi, decide_eq_true hk, Bool.true_and] at hbit
            simpa using hbit.symm
          · have hbyteq := hsame (k / 8 - (start / 8 + 1)) (by lia)
            rw [hget, Nat.add_sub_cancel' (by lia)] at hbyteq
            exact skipByte_pix.mp hbyteq (k % 8) (Nat.mod_lt k (by decide))
        have hne0 : byte' ≠ 0 := by
          rw [hbyte]
          intro hx
          exact hne (UInt8.xor_eq_zero_iff.mp hx)
        have hpix' : ∀ i < 8, bytePix byte' i
            = (decide (8 * j ≤ 8 * j + i) && (pix buf (8 * j + i) ^^ skip)) := by
          intro i hi
          rw [hbyte, bytePix_xor_skip _ _ hi, pix_add _ _ hi, decide_eq_true (Nat.le_add_right _ i),
            Bool.true_and]
        obtain ⟨h₁, h₂, h₃⟩ := stop_at start (Nat.le_refl (8 * j)) hpix' hne0 hbefore
        exact ⟨_, by lia, h₂, h₃, by injection h with h; exact h.symm⟩
    · rw [if_neg hzero] at h
      obtain ⟨h₁, h₂, h₃⟩ := stop_at start (Nat.mul_div_le start 8) hpix hzero
        (fun k hk hks => absurd hks (Nat.not_lt.mpr hk))
      exact ⟨_, h₁, h₂, h₃, by injection h with h; exact h.symm⟩

theorem scanTo_returns {q : Nat} (hstart : start ≤ n + 1) (hsq : start ≤ q)
    (hq : q / 8 < buf.length) (hpix : pix buf q = !skip) :
    scanTo skip buf start n = .ok (next (pix buf) skip n start) := by
  suffices hret : ∃ r, scanTo skip buf start n = .ok r by
    obtain ⟨r, hr⟩ := hret
    rw [hr, (scanTo_ok hr).2]
  rw [scanTo, if_neg (by lia), Int.toNat_natCast]
  cases hdrop : buf.drop (start / 8) with
  | nil =>
    rw [List.drop_eq_nil_iff] at hdrop
    lia
  | cons first rest =>
    dsimp only
    obtain ⟨hfirst, rfl, hlen⟩ := getD_drop_zero hdrop
    have hpix' := fun i (hi : i < 8) => first_pix skip hfirst hi
    generalize (first ^^^ skipByte skip) &&& (0xFF >>> UInt8.ofNat (start % 8)) = byte at hpix' ⊢
    have hother : (pix buf q ^^ skip) = true := by
      rw [hpix]
      cases skip <;> rfl
    by_cases hzero : byte = 0
    · have hbeyond : start / 8 < q / 8 := by
        by_contra hge
        have hbit := hpix' (q - 8 * (start / 8)) (by lia)
        rw [hzero, Nat.add_sub_cancel' (by lia), decide_eq_true hsq, hother] at hbit
        cases hbit.symm.trans (show bytePix 0 _ = false from Nat.zero_testBit _)
      obtain ⟨byte', j, hscan⟩ := scanBytes_returns skip
        (l := buf.drop (start / 8 + 1)) (start / 8 + 1) (k := q / 8 - (start / 8 + 1))
        (by rw [List.length_drop]; lia) (by
          rw [List.getD_eq_getElem?_getD, List.getElem?_drop, ← List.getD_eq_getElem?_getD,
            Nat.add_sub_cancel' (by lia)]
          intro hbyte
          have := skipByte_pix.mp hbyte (q % 8) (Nat.mod_lt q (by decide))
          rw [pix, this] at hpix
          cases skip <;> cases hpix)
      rw [if_pos hzero, hscan]
      exact ⟨_, rfl⟩
    · rw [if_neg hzero]
      exact ⟨_, rfl⟩

/-! ## The sentinel -/

theorem store_ok {buf buf' : List UInt8} {i : Nat} {b : UInt8} (h : store buf i b = .ok buf') :
    i < buf.length ∧ buf' = buf.set i b := by
  rw [store] at h
  by_cases hlt : i < buf.length
  · rw [if_pos hlt] at h
    cases h
    exact ⟨hlt, rfl⟩
  · rw [if_neg hlt] at h
    cases h

theorem store_returns {buf : List UInt8} {i : Nat} (b : UInt8) (h : i < buf.length) :
    store buf i b = .ok (buf.set i b) := if_pos h

def Sentinel (buf : List UInt8) (n : Nat) : Prop := n % 8 = 0 ∧ n / 8 < buf.length ∧
  buf.getD (n / 8) 0 = 0x55

theorem scanTo_sentinel (h : Sentinel buf n) (hstart : start ≤ n + 1) :
    scanTo skip buf start n = .ok (next (pix buf) skip n start) := by
  obtain ⟨hmod, hlen, hbyte⟩ := h
  have hn : n = 8 * (n / 8) := by lia
  have hpix : ∀ i < 8, pix buf (n + i) = bytePix 0x55 i := by
    intro i hi
    rw [hn, pix_add _ _ hi, hbyte]
  cases skip with
  | false => exact scanTo_returns (q := n + 1) hstart hstart (by lia) (hpix 1 (by decide))
  | true => exact scanTo_returns (q := n + 2) hstart (by lia) (by lia) (hpix 2 (by decide))

end Hplip.Ip
