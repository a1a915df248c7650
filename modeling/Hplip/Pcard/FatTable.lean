import Hplip.Lib.Nibble
import Hplip.Pcard.Fat

/-!
# Widening and narrowing a FAT12 table

An entry of a FAT12 table is three half bytes. Widening puts them into a 16-bit entry,
narrowing takes them out again; with as many entries as are taken for a table, the last
one or two half bytes are not an entry's unless the sectors are a multiple of three.
-/

namespace Hplip.Pcard

open Nibble

def values (fat : Nat → UInt16) : Nat → Nat := fun i => (fat i).toNat

/-! ## Widening -/

theorem word_lt (m : Bytes) (k : Nat) : word m k < 65536 := by
  have hlow := (m k).toNat_lt
  have hhigh := (m (k + 1)).toNat_lt
  unfold word
  lia

theorem word_even (m : Bytes) (i : Nat) : word m (3 * i) % 4096
    = nibble m (6 * i) + 16 * nibble m (6 * i + 1) + 256 * nibble m (6 * i + 2) := by
  have hlow := (m (3 * i)).toNat_lt
  have h0 := nibble_even m (3 * i)
  have h1 := nibble_odd m (3 * i)
  have h2 := nibble_even m (3 * i + 1)
  rw [show 6 * i = 2 * (3 * i) by lia, show 2 * (3 * i) + 2 = 2 * (3 * i + 1) by lia, h0, h1,
    h2, word]
  lia

theorem word_odd (m : Bytes) (i : Nat) : word m (3 * i + 1) / 16
    = nibble m (6 * i + 3) + 16 * nibble m (6 * i + 4) + 256 * nibble m (6 * i + 5) := by
  have hlow := (m (3 * i + 1)).toNat_lt
  have h3 := nibble_odd m (3 * i + 1)
  have h4 := nibble_even m (3 * i + 2)
  have h5 := nibble_odd m (3 * i + 2)
  rw [show 6 * i + 3 = 2 * (3 * i + 1) + 1 by lia, show 6 * i + 4 = 2 * (3 * i + 2) by lia,
    show 6 * i + 5 = 2 * (3 * i + 2) + 1 by lia, h3, h4, h5, word,
    show 3 * i + 1 + 1 = 3 * i + 2 from rfl]
  lia

/-- What the widening loop keeps, at entry `n`. -/
structure Widened (src : Bytes) (dest : Nat → UInt16) (n : Nat) (c : Conversion UInt16) :
    Prop where
  p12 : c.p12 = 3 * n / 2
  entry : ∀ i < n, (c.out i).toNat
    = nibble src (3 * i) + 16 * nibble src (3 * i + 1) + 256 * nibble src (3 * i + 2)
  rest : ∀ i, n ≤ i → c.out i = dest i

theorem widenStep_spec {src : Bytes} {dest : Nat → UInt16} {n : Nat} {c : Conversion UInt16}
    (h : Widened src dest n c) : Widened src dest (n + 1) (widenStep src c n) := by
  have hp12 := h.p12
  have hother : ∀ v : UInt16, (∀ i < n, (Function.update c.out n v i).toNat
      = nibble src (3 * i) + 16 * nibble src (3 * i + 1) + 256 * nibble src (3 * i + 2)) ∧
      ∀ i, n + 1 ≤ i → Function.update c.out n v i = dest i := by
    intro v
    constructor
    · intro i hi
      rw [Function.update_of_ne (Nat.ne_of_lt hi), h.entry i hi]
    · intro i hi
      rw [Function.update_of_ne (Nat.ne_of_gt hi), h.rest i (Nat.le_of_succ_le hi)]
  have hword := word_lt src c.p12
  unfold widenStep
  split
  · rename_i hodd
    obtain ⟨i, rfl⟩ : ∃ i, n = 2 * i + 1 := ⟨n / 2, by lia⟩
    constructor
    · show c.p12 + 2 = _
      lia
    · intro j hj
      rcases Nat.lt_succ_iff_lt_or_eq.mp hj with hlt | rfl
      · exact (hother _).1 j hlt
      · show (Function.update c.out _ _ (2 * i + 1)).toNat = _
        rw [Function.update_self, UInt16.toNat_ofNat_of_lt' (show _ < 65536 by lia),
          show c.p12 = 3 * i + 1 by lia, word_odd, show 3 * (2 * i + 1) = 6 * i + 3 by lia]
    · exact (hother _).2
  · rename_i heven
    obtain ⟨i, rfl⟩ : ∃ i, n = 2 * i := ⟨n / 2, by lia⟩
    constructor
    · show c.p12 + 1 = _
      lia
    · intro j hj
      rcases Nat.lt_succ_iff_lt_or_eq.mp hj with hlt | rfl
      · exact (hother _).1 j hlt
      · show (Function.update c.out _ _ (2 * i)).toNat = _
        rw [Function.update_self, UInt16.toNat_ofNat_of_lt' (show _ < 65536 by lia),
          show c.p12 = 3 * i by lia, word_even, show 3 * (2 * i) = 6 * i by lia]
    · exact (hother _).2

/-- **Widening** puts the half bytes of each entry together. -/
theorem widen_spec (dest : Nat → UInt16) (src : Bytes) (maxentry : Nat) :
    Widened src dest maxentry ((List.range maxentry).foldl (widenStep src) ⟨0, dest⟩) := by
  induction maxentry with
  | zero => exact ⟨rfl, fun i hi => absurd hi (Nat.not_lt_zero i), fun _ _ => rfl⟩
  | succ n ih =>
    rw [List.range_succ, List.foldl_append]
    exact widenStep_spec ih

/-! ## Narrowing -/

/-- What the narrowing loop keeps, at entry `n`: an even entry has put the first half
byte of the next one beside its last. -/
structure Narrowed (src : Nat → UInt16) (dest : Bytes) (n : Nat) (c : Conversion UInt8) :
    Prop where
  p12 : 2 * c.p12 = 3 * n + n % 2
  digit : ∀ k < 2 * c.p12, nibble c.out k = digit (values src) k
  rest : ∀ i, c.p12 ≤ i → c.out i = dest i

theorem narrow_even {w w' : Nat} (h : w < 4096) :
    (w ||| (w' <<< 12)) % 65536 = w + 4096 * (w' % 16) := by
  have hadd := Nat.shiftLeft_add_eq_or_of_lt (i := 12) h w'
  rw [Nat.or_comm, ← hadd, Nat.shiftLeft_eq]
  lia

theorem narrow_low {v w d : Nat} (hv : v % 65536 = w + 4096 * d) : v % 256 = w % 256 := by
  have hmod : v % 65536 % 256 = v % 256 := Nat.mod_mod_of_dvd v (by decide)
  rw [← hmod, hv, show 4096 * d = 256 * (16 * d) by lia, Nat.add_mul_mod_self_left]

theorem narrow_high {v w d : Nat} (hv : v % 65536 = w + 4096 * d) :
    v / 256 % 256 = w / 256 + 16 * d := by
  have hdiv : v % (256 * 256) / 256 = v / 256 % 256 := Nat.mod_mul_right_div_self v 256 256
  rw [← hdiv, show 256 * 256 = 65536 from rfl, hv, show 4096 * d = 256 * (16 * d) by lia,
    Nat.add_mul_div_left _ _ (by decide)]

theorem half_bytes {w d : Nat} (hw : w < 4096) :
    w % 256 % 16 = w % 16 ∧ w % 256 / 16 = w / 16 % 16 ∧
      (w / 256 + 16 * d) % 16 = w / 256 % 16 ∧ (w / 256 + 16 * d) / 16 = d := by
  refine ⟨Nat.mod_mod_of_dvd w (by decide), Nat.mod_mul_right_div_self w 16 16, ?_, ?_⟩
  · exact Nat.add_mul_mod_self_left _ _ _
  · have hlt : w / 256 < 16 := Nat.div_lt_of_lt_mul hw
    rw [Nat.add_mul_div_left _ _ (by decide), Nat.div_eq_of_lt hlt, Nat.zero_add]

theorem nibble_update (m : Bytes) (p : Nat) (v : UInt8) (k : Nat) :
    nibble (Function.update m p v) k =
      if k = 2 * p then v.toNat % 16 else if k = 2 * p + 1 then v.toNat / 16 else nibble m k := by
  by_cases h0 : k = 2 * p
  · rw [if_pos h0, h0, nibble_even, Function.update_self]
  · rw [if_neg h0]
    by_cases h1 : k = 2 * p + 1
    · rw [if_pos h1, h1, nibble_odd, Function.update_self]
    · rw [if_neg h1]
      unfold nibble
      rw [Function.update_of_ne (by omega)]

theorem narrowStep_odd {src : Nat → UInt16} {dest : Bytes} {i : Nat} {c : Conversion UInt8}
    (h : Narrowed src dest (2 * i + 1) c) (hn : (src (2 * i + 1)).toNat < 4096) :
    Narrowed src dest (2 * i + 1 + 1)
      ⟨c.p12 + 1, Function.update c.out c.p12 (UInt8.ofNat ((src (2 * i + 1)).toNat / 16))⟩ := by
  have hp12 := h.p12
  have hplace : c.p12 = 3 * i + 2 := by omega
  have hbyte : (UInt8.ofNat ((src (2 * i + 1)).toNat / 16)).toNat
      = (src (2 * i + 1)).toNat / 16 := UInt8.toNat_ofNat_of_lt' (show _ < 256 by omega)
  refine ⟨by dsimp only; omega, fun k (hk : k < 2 * (c.p12 + 1)) => ?_,
    fun j (hj : c.p12 + 1 ≤ j) => ?_⟩
  · rw [nibble_update, hbyte]
    split_ifs with h0 h1
    · rw [h0, hplace, show 2 * (3 * i + 2) = 3 * (2 * i + 1) + 1 by omega, digit_one]
      rfl
    · rw [h1, hplace, show 2 * (3 * i + 2) + 1 = 3 * (2 * i + 1) + 2 by omega, digit_two]
      show _ = (src (2 * i + 1)).toNat / 256 % 16
      omega
    · exact h.digit k (by omega)
  · show Function.update c.out c.p12 _ j = _
    rw [Function.update_of_ne (by omega), h.rest j (by omega)]

theorem narrowStep_even {src : Nat → UInt16} {dest : Bytes} {i : Nat} {c : Conversion UInt8}
    (h : Narrowed src dest (2 * i) c) (hn : (src (2 * i)).toNat < 4096) {v : Nat}
    (hv : v % 65536 = (src (2 * i)).toNat + 4096 * ((src (2 * i + 1)).toNat % 16)) :
    Narrowed src dest (2 * i + 1) ⟨c.p12 + 2, Function.update
      (Function.update c.out c.p12 (UInt8.ofNat v)) (c.p12 + 1) (UInt8.ofNat (v / 256))⟩ := by
  have hp12 := h.p12
  have hplace : c.p12 = 3 * i := by omega
  have hlow : (UInt8.ofNat v).toNat = (src (2 * i)).toNat % 256 :=
    (UInt8.toNat_ofNat' ..).trans (narrow_low hv)
  have hhigh : (UInt8.ofNat (v / 256)).toNat
      = (src (2 * i)).toNat / 256 + 16 * ((src (2 * i + 1)).toNat % 16) :=
    (UInt8.toNat_ofNat' ..).trans (narrow_high hv)
  obtain ⟨hd0, hd1, hd2, hd3⟩ := @half_bytes _ ((src (2 * i + 1)).toNat % 16) hn
  refine ⟨by dsimp only; omega, fun k (hk : k < 2 * (c.p12 + 2)) => ?_,
    fun j (hj : c.p12 + 2 ≤ j) => ?_⟩
  · rw [nibble_update, nibble_update, hlow, hhigh]
    split_ifs with h2 h3 h0 h1
    · rw [h2, hplace, show 2 * (3 * i + 1) = 3 * (2 * i) + 2 by omega, digit_two]
      exact hd2
    · rw [h3, hplace, show 2 * (3 * i + 1) + 1 = 3 * (2 * i + 1) by omega, digit_zero]
      exact hd3
    · rw [h0, hplace, show 2 * (3 * i) = 3 * (2 * i) by omega, digit_zero]
      exact hd0
    · rw [h1, hplace, show 2 * (3 * i) + 1 = 3 * (2 * i) + 1 by omega, digit_one]
      exact hd1
    · exact h.digit k (by omega)
  · show Function.update (Function.update c.out c.p12 _) (c.p12 + 1) _ j = _
    rw [Function.update_of_ne (by omega), Function.update_of_ne (by omega), h.rest j (by omega)]

theorem narrowStep_spec {src : Nat → UInt16} {dest : Bytes} {n : Nat} {c : Conversion UInt8}
    (h : Narrowed src dest n c) (hn : (src n).toNat < 4096) :
    Narrowed src dest (n + 1) (narrowStep src c n) := by
  unfold narrowStep
  split
  · rename_i hodd
    obtain ⟨i, rfl⟩ : ∃ i, n = 2 * i + 1 := ⟨n / 2, by lia⟩
    exact narrowStep_odd h hn
  · rename_i heven
    obtain ⟨i, rfl⟩ : ∃ i, n = 2 * i := ⟨n / 2, by lia⟩
    exact narrowStep_even h hn (narrow_even hn)

/-- **Narrowing** takes the half bytes of 12-bit entries apart. -/
theorem narrow_spec (dest : Bytes) (src : Nat → UInt16) (maxentry : Nat)
    (h12 : ∀ i < maxentry, (src i).toNat < 4096) :
    Narrowed src dest maxentry ((List.range maxentry).foldl (narrowStep src) ⟨0, dest⟩) := by
  induction maxentry with
  | zero => exact ⟨rfl, fun k hk => absurd hk (Nat.not_lt_zero k), fun _ _ => rfl⟩
  | succ n ih =>
    rw [List.range_succ, List.foldl_append]
    exact narrowStep_spec (ih fun i hi => h12 i (Nat.lt_succ_of_lt hi)) (h12 n (Nat.lt_succ_self n))

/-! ## There and back -/

section RoundTrip

variable (table fresh : Bytes) (heapFat : Nat → UInt16) (s : Nat)

/-- A FAT12 table of `s` sectors as `FatInit` widens it. -/
def widened : Nat → UInt16 := convertFat12to16 heapFat table (entries12 (s * hardSect))

theorem widened_lt {i : Nat} (hi : i < entries12 (s * hardSect)) :
    (widened table heapFat s i).toNat < 4096 := by
  have h0 := nibble_lt table (3 * i)
  have h1 := nibble_lt table (3 * i + 1)
  have h2 := nibble_lt table (3 * i + 2)
  rw [widened, convertFat12to16, (widen_spec heapFat table _).entry i hi]
  lia

theorem digit_widened {k : Nat} (hk : k < 3 * entries12 (s * hardSect)) :
    digit (values (widened table heapFat s)) k = nibble table k := by
  have hentry := (widen_spec heapFat table (entries12 (s * hardSect))).entry (k / 3) (by lia)
  obtain ⟨h0, h1, h2⟩ := digit_of_nibbles table (values (widened table heapFat s)) hentry
  rcases eq_entry k with h | h | h
  · rw [h]
    exact h0
  · rw [h]
    exact h1
  · rw [h]
    exact h2

theorem widened_end :
    widened table heapFat s (entries12 (s * hardSect)) = heapFat (entries12 (s * hardSect)) :=
  (widen_spec heapFat table _).rest _ (Nat.le_refl _)

variable {s}

theorem entries12_mul_three : 3 * entries12 (s * hardSect) + s % 3 = 1024 * s := by
  unfold entries12 hardSect
  lia

/-- The half bytes that no entry covers are kept only by chance: one is taken from the
entry behind the table, two are not written at all. -/
def LastEntryKept (table fresh : Bytes) (behind : UInt16) (s : Nat) : Prop :=
  s % 3 = 0 ∨
  s % 3 = 1 ∧ behind.toNat % 16 = (table (s * hardSect - 1)).toNat / 16 ∨
  s % 3 = 2 ∧ fresh (s * hardSect - 1) = table (s * hardSect - 1)

/-- **A table comes back as it was** exactly if its last half bytes do. -/
theorem reproduces_iff : (∀ k < s * hardSect, convertFat16to12 fresh (widened table heapFat s)
      (entries12 (s * hardSect)) k = table k) ↔
    LastEntryKept table fresh (heapFat (entries12 (s * hardSect))) s := by
  have hN := narrow_spec fresh (widened table heapFat s) (entries12 (s * hardSect))
    fun i hi => widened_lt table heapFat s hi
  have hp12 := hN.p12
  have hE : 3 * entries12 (s * hardSect) + s % 3 = 1024 * s := entries12_mul_three
  generalize hout : convertFat16to12 fresh (widened table heapFat s) (entries12 (s * hardSect)) = out
  have hdigit : ∀ k < 3 * entries12 (s * hardSect), nibble out k = nibble table k := by
    intro k hk
    rw [← digit_widened table heapFat s hk, ← hout]
    exact hN.digit k (by lia)
  have hbyte : ∀ k, 2 * k + 1 < 3 * entries12 (s * hardSect) → out k = table k := fun k hk =>
    byte_eq_iff.mpr ⟨hdigit _ (by lia), hdigit _ hk⟩
  -- all bytes but the last are an entry's
  have hlast : (∀ k < s * hardSect, out k = table k) ↔
      s % 3 = 0 ∨ out (s * hardSect - 1) = table (s * hardSect - 1) := by
    constructor
    · intro h
      by_cases hzero : s % 3 = 0
      · exact .inl hzero
      · exact .inr (h _ (by unfold hardSect; lia))
    · rintro h k hk
      unfold hardSect at *
      by_cases hk' : 2 * k + 1 < 3 * entries12 (s * 512)
      · exact hbyte k hk'
      · rcases h with h | h
        · lia
        · obtain rfl : k = s * 512 - 1 := by lia
          exact h
  rw [hlast, LastEntryKept]
  refine or_congr_right' fun hzero => ?_
  have hpos : 0 < s := by lia
  rcases (by lia : s % 3 = 1 ∨ s % 3 = 2) with h1 | h2
  · -- the upper half of the last byte is the lower half of the entry behind the table
    have hend : 2 * (s * hardSect - 1) + 1 = 3 * entries12 (s * hardSect) := by
      unfold hardSect at *
      lia
    have hupper : nibble out (3 * entries12 (s * hardSect))
        = (heapFat (entries12 (s * hardSect))).toNat % 16 := by
      rw [← hout, ← widened_end table heapFat s]
      exact (hN.digit _ (by lia)).trans (digit_zero _ _)
    rw [byte_eq_iff, hend, hupper, ← hend, nibble_odd]
    constructor
    · rintro ⟨-, hsame⟩
      exact .inl ⟨h1, hsame⟩
    · rintro (⟨-, hsame⟩ | ⟨h2, -⟩)
      · exact ⟨hdigit _ (by lia), hsame⟩
      · lia
  · -- the last byte is behind the last write
    have hrest : out (s * hardSect - 1) = fresh (s * hardSect - 1) := by
      rw [← hout]
      exact hN.rest _ (by unfold hardSect at *; lia)
    rw [hrest]
    constructor
    · exact fun hsame => .inr ⟨h2, hsame⟩
    · rintro (⟨h1, -⟩ | ⟨-, hsame⟩)
      · lia
      · exact hsame

end RoundTrip

/-! ## The write-back -/

section WriteBack

variable {disk : Disk} {heap fresh : Bytes} {heapFat : Nat → UInt16}
  {cwd : CurrentWorkingDirectory} {fa : CurrentFileAttributes} {st : State}

theorem fatInit_fat12 (h : fatInit disk heap heapFat cwd fa = some st) (h12 : st.bpb.IsFat12) :
    st.da.fat12Size = st.bpb.sectorsPerFat * hardSect ∧
      st.da.fat = widened st.da.fat12 heapFat st.bpb.sectorsPerFat := by
  unfold fatInit at h
  dsimp only at h
  split at h
  · cases h
  · cases h
    exact ⟨rfl, if_pos h12⟩

def withFat (st : State) (fat : Nat → UInt16) : State := { st with da := { st.da with fat := fat } }

/-- Part of entry `e` of a FAT12 table is in sector `i` of it. -/
def Meets (e i : Nat) : Prop := ∃ k, k / 3 = e ∧ k / (2 * hardSect) = i

/-- The cached table gives back what was read. -/
def Reproduces (fresh : Bytes) (st : State) : Prop :=
  ∀ k < st.da.fat12Size,
    convertFat16to12 fresh st.da.fat (entries12 st.da.fat12Size) k = st.da.fat12 k

/-- After any change of entries every sector that is written has part of one of them. -/
def WritesOnlyChanges (fresh : Bytes) (st : State) : Prop :=
  ∀ fat' : Nat → UInt16, (∀ e < entries12 st.da.fat12Size, (fat' e).toNat < 4096) →
    (∀ e, entries12 st.da.fat12Size ≤ e → fat' e = st.da.fat e) →
    ∀ i ∈ writtenSectors fresh (withFat st fat'),
      ∃ e < entries12 st.da.fat12Size, fat' e ≠ st.da.fat e ∧ Meets e i

theorem mem_writtenSectors {i : Nat} : i ∈ writtenSectors fresh st ↔ i < st.bpb.sectorsPerFat ∧
    ∃ j < hardSect, (updated fresh st).1 (i * hardSect + j) ≠ (updated fresh st).2 (i * hardSect + j) := by
  rw [writtenSectors, List.mem_filter, List.mem_range, decide_eq_true_eq, Differs, Ne,
    slice_eq_iff]
  push Not
  rfl

theorem changed_of_byte_ne {fat fat' : Nat → UInt16} {n k : Nat}
    (h : ∀ e < n, (fat e).toNat < 4096) (h' : ∀ e < n, (fat' e).toNat < 4096)
    (hrest : ∀ e, n ≤ e → fat' e = fat e)
    (hne : convertFat16to12 fresh fat' n k ≠ convertFat16to12 fresh fat n k) :
    ∃ e < n, fat' e ≠ fat e ∧ (2 * k / 3 = e ∨ (2 * k + 1) / 3 = e) := by
  have hN := narrow_spec fresh fat n h
  have hN' := narrow_spec fresh fat' n h'
  have hp12 := hN.p12
  have hp12' := hN'.p12
  have hsame : ∀ j, fat' (j / 3) = fat (j / 3) → digit (values fat') j = digit (values fat) j := by
    intro j hj
    rw [digit, digit, values, hj]
    rfl
  have hin : 2 * k + 1 < 3 * n + n % 2 := by
    by_contra hout
    exact hne ((hN'.rest k (by lia)).trans (hN.rest k (by lia)).symm)
  have hlow := hN.digit (2 * k) (by lia)
  have hlow' := hN'.digit (2 * k) (by lia)
  have hhigh := hN.digit (2 * k + 1) (by lia)
  have hhigh' := hN'.digit (2 * k + 1) (by lia)
  have hentry : fat' (2 * k / 3) ≠ fat (2 * k / 3) ∨ fat' ((2 * k + 1) / 3) ≠ fat ((2 * k + 1) / 3) := by
    by_contra hequal
    push Not at hequal
    refine hne (byte_eq_iff.mpr ⟨?_, ?_⟩)
    · exact (hlow'.trans (hsame _ hequal.1)).trans hlow.symm
    · exact (hhigh'.trans (hsame _ hequal.2)).trans hhigh.symm
  have hlt : ∀ e, fat' e ≠ fat e → e < n := fun e he => by
    by_contra hge
    exact he (hrest e (Nat.le_of_not_lt hge))
  rcases hentry with he | he
  · exact ⟨_, hlt _ he, he, .inl rfl⟩
  · exact ⟨_, hlt _ he, he, .inr rfl⟩

/-- **The write-back of a FAT12 table is confined to what has changed** exactly if its
last half bytes are kept: if the sectors are a multiple of three, or by chance. -/
theorem updateFat_faithful_iff (h : fatInit disk heap heapFat cwd fa = some st)
    (h12 : st.bpb.IsFat12) (fresh : Bytes) :
    (Reproduces fresh st ∧ writtenSectors fresh st = [] ∧ WritesOnlyChanges fresh st) ↔
      LastEntryKept st.da.fat12 fresh (heapFat (entries12 st.da.fat12Size))
        st.bpb.sectorsPerFat := by
  obtain ⟨hsize, hfat⟩ := fatInit_fat12 h h12
  have hiff : Reproduces fresh st ↔ LastEntryKept st.da.fat12 fresh
      (heapFat (entries12 st.da.fat12Size)) st.bpb.sectorsPerFat := by
    unfold Reproduces
    rw [hsize, hfat]
    exact reproduces_iff st.da.fat12 fresh heapFat
  rw [← hiff]
  refine ⟨fun hall => hall.1, fun hsame => ⟨hsame, ?_, ?_⟩⟩
  · refine List.eq_nil_iff_forall_not_mem.mpr fun i hi => ?_
    obtain ⟨hi, j, hj, hne⟩ := mem_writtenSectors.mp hi
    rw [updated, if_pos h12] at hne
    refine hne (hsame _ ?_)
    rw [hsize]
    unfold hardSect at *
    lia
  · intro fat' hfat' hrest i hi
    obtain ⟨hi, j, hj, hne⟩ := mem_writtenSectors.mp hi
    have h12' : (withFat st fat').bpb.IsFat12 := h12
    rw [updated, if_pos h12'] at hne
    have hi : i < st.bpb.sectorsPerFat := hi
    have hk : i * hardSect + j < st.da.fat12Size := by
      rw [hsize]
      unfold hardSect at *
      lia
    have hne : convertFat16to12 fresh fat' (entries12 st.da.fat12Size) (i * hardSect + j)
        ≠ convertFat16to12 fresh st.da.fat (entries12 st.da.fat12Size) (i * hardSect + j) := by
      rw [hsame _ hk]
      exact hne
    have hlt : ∀ e < entries12 st.da.fat12Size, (st.da.fat e).toNat < 4096 := by
      rw [hsize, hfat]
      exact fun e he => widened_lt _ _ _ he
    obtain ⟨e, he, hchanged, hwhere⟩ := changed_of_byte_ne hlt hfat' hrest hne
    refine ⟨e, he, hchanged, ?_⟩
    unfold hardSect at *
    rcases hwhere with hlow | hhigh
    · exact ⟨_, hlow, by unfold hardSect; lia⟩
    · exact ⟨_, hhigh, by unfold hardSect; lia⟩

/-- A card whose only table has `s` sectors of zeros. -/
def blankCard (s : UInt8) : Disk := fun sector k =>
  if sector = 0 then
    match k with
    | 12 => 2
    | 13 => 1
    | 14 => 1
    | 16 => 1
    | 17 => 16
    | 22 => s
    | 54 => 0x46
    | 55 => 0x41
    | 56 => 0x54
    | 57 => 0x31
    | 58 => 0x32
    | _ => 0
  else 0

def noCWD : CurrentWorkingDirectory := ⟨[], 0, 0, 0, 0⟩

def noFile : CurrentFileAttributes := ⟨[], 0, 0, 0, 0, 0, 0, 0⟩

/-- The card with `s` sectors, with ones on the heap. -/
def blankInit (s : UInt8) : Option State :=
  fatInit (blankCard s) (fun _ => 0xff) (fun _ => 0xffff) noCWD noFile

theorem blankInit_three : (blankInit 3).isSome := rfl

theorem blankInit_one : (blankInit 1).isSome := rfl

/-- Three sectors. -/
theorem updateFat_faithful_three : ∃ st, blankInit 3 = some st ∧
    Reproduces (fun _ => 0xff) st ∧ writtenSectors (fun _ => 0xff) st = [] ∧
      WritesOnlyChanges (fun _ => 0xff) st := by
  have h := (Option.some_get blankInit_three).symm
  refine ⟨_, h, (updateFat_faithful_iff h (by decide) _).mpr (.inl ?_)⟩
  rfl

/-- One sector: it is written although nothing has changed. -/
theorem not_faithful_one : ∃ st, blankInit 1 = some st ∧
    st.bpb.IsFat12 ∧ writtenSectors (fun _ => 0xff) st = [0] := by
  have h := (Option.some_get blankInit_one).symm
  have h12 : ((blankInit 1).get blankInit_one).bpb.IsFat12 := by decide
  have hsectors : ((blankInit 1).get blankInit_one).bpb.sectorsPerFat = 1 := rfl
  have hlast : ((blankInit 1).get blankInit_one).da.fat12 511 = 0 := by decide +kernel
  obtain ⟨hsize, hfat⟩ := fatInit_fat12 h h12
  refine ⟨_, h, h12, ?_⟩
  generalize (blankInit 1).get blankInit_one = st at h12 hsectors hlast hsize hfat
  -- the entry behind the table is all ones
  have hlost : ¬ LastEntryKept st.da.fat12 (fun _ => 0xff) 0xffff 1 := by
    unfold LastEntryKept hardSect
    rw [Nat.one_mul, hlast]
    decide
  rw [hsectors] at hsize hfat
  have hbyte : ∃ k < hardSect, (updated (fun _ => 0xff) st).1 (0 * hardSect + k)
      ≠ (updated (fun _ => 0xff) st).2 (0 * hardSect + k) := by
    by_contra hsame
    push Not at hsame
    refine hlost ((reproduces_iff st.da.fat12 (fun _ => 0xff) (fun _ => 0xffff)).mp fun k hk => ?_)
    have hk' := hsame k (by rwa [Nat.one_mul] at hk)
    rw [updated, if_pos h12, hsize, hfat, Nat.zero_mul, Nat.zero_add] at hk'
    exact hk'
  have hmem := mem_writtenSectors.mpr ⟨by rw [hsectors]; exact Nat.one_pos, hbyte⟩
  rw [writtenSectors, hsectors, List.range_one] at hmem ⊢
  rw [List.filter_cons, if_pos (List.mem_filter.mp hmem).2, List.filter_nil]

end WriteBack

end Hplip.Pcard
