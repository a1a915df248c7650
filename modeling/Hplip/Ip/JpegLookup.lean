import Hplip.Ip.JpegTables

/-!
# The two-level lookup of Huffman codes (xjpg_dec.c)

Counts and values describe a canonical code: the words follow each other in the order of their
sizes and of the list. `calc_table` makes an index of the short words and a sorted table of the long
ones, and `DECODE_HUFF` finds the word that the next bits begin with.
-/

namespace Hplip.Ip.JpegDec

open Bits PrefixCode JpegEnc

/-! ## Canonical codes -/

/-- The words of the standard, in the order of their sizes and of the values. -/
def canonicalCodes (counts huffval : List UInt8) : List (Elem Nat) :=
  canonical 16 0 ((huffsize counts).zip (huffval.map UInt8.toNat))

/-- Counts and values that describe a prefix code without a word of ones. -/
structure IsPrefixCode (counts huffval : List UInt8) : Prop where
  sixteen : counts.length = 16
  some : 1 ≤ numCodes counts
  atMost : numCodes counts ≤ 256
  values : numCodes counts ≤ huffval.length
  kraft : kraft 16 (huffsize counts) ≤ 2 ^ 16
  noOnes : ∀ e ∈ canonicalCodes counts huffval, e.code + 1 ≠ 2 ^ e.size

section Sizes

variable {counts huffval : List UInt8} {k mainIxLen : Nat}

/-- The sizes of codes from `k` bits on. -/
def sizesFrom (k : Nat) (counts : List UInt8) : List Nat :=
  (counts.zipIdx k).flatMap fun (count, size) => List.replicate count.toNat size

theorem sizesFrom_cons (count : UInt8) :
    sizesFrom k (count :: counts) = List.replicate count.toNat k ++ sizesFrom (k + 1) counts := rfl

theorem mem_sizesFrom {s : Nat} (h : s ∈ sizesFrom k counts) : k ≤ s ∧ s < k + counts.length := by
  induction counts generalizing k with
  | nil => cases h
  | cons count counts ih =>
    rw [sizesFrom_cons, List.mem_append] at h
    rw [List.length_cons]
    rcases h with h | h
    · rw [List.eq_of_mem_replicate h]
      lia
    · have hs := ih h
      lia

theorem sizesFrom_sorted : (sizesFrom k counts).Pairwise (· ≤ ·) := by
  induction counts generalizing k with
  | nil => exact List.Pairwise.nil
  | cons count counts ih =>
    rw [sizesFrom_cons]
    refine List.pairwise_append.mpr ⟨List.pairwise_replicate.mpr (.inr (Nat.le_refl k)), ih, ?_⟩
    intro a ha b hb
    rw [List.eq_of_mem_replicate ha]
    exact Nat.le_of_succ_le (mem_sizesFrom hb).1

theorem length_sizesFrom : (sizesFrom k counts).length = numCodes counts := by
  induction counts generalizing k with
  | nil => rfl
  | cons count counts ih =>
    rw [sizesFrom_cons, List.length_append, List.length_replicate, ih]
    rfl

theorem huffsize_eq : huffsize counts = sizesFrom 1 counts := rfl

theorem huffsize_split (h : mainIxLen ≤ counts.length) :
    huffsize counts = sizesFrom 1 (counts.take mainIxLen)
      ++ sizesFrom (1 + mainIxLen) (counts.drop mainIxLen) := by
  have hlen : (counts.take mainIxLen).length = mainIxLen := List.length_take_of_le h
  have hparts : (counts.take mainIxLen ++ counts.drop mainIxLen).zipIdx 1 = _ :=
    List.zipIdx_append
  rw [List.take_append_drop, hlen] at hparts
  rw [huffsize, hparts, List.flatMap_append]
  rfl

theorem length_dropWhile_huffsize (h : mainIxLen ≤ counts.length) :
    ((huffsize counts).dropWhile (· ≤ mainIxLen)).length = numCodes (counts.drop mainIxLen) := by
  have hlen : (counts.take mainIxLen).length = mainIxLen := List.length_take_of_le h
  rw [huffsize_split h, List.dropWhile_append_of_pos]
  · rw [List.dropWhile_eq_self_iff.mpr, length_sizesFrom]
    intro hpos
    have hs := (mem_sizesFrom (List.getElem_mem hpos)).1
    simp only [decide_eq_true_eq]
    lia
  · intro s hs
    have hlt := (mem_sizesFrom hs).2
    rw [hlen] at hlt
    exact decide_eq_true (by lia)

theorem shiftLeft_place {siz s : Nat} (code : Nat) (hsiz : siz ≤ s) (hfit : s ≤ 16) :
    code <<< (s - siz) * 2 ^ (16 - s) = code * 2 ^ (16 - siz) := by
  rw [Nat.shiftLeft_eq, Nat.mul_assoc, ← Nat.pow_add]
  congr 2
  lia

theorem zipWith_huffcode (code siz : Nat) (huffval : List UInt8) {sizes : List Nat}
    (hsorted : sizes.Pairwise (· ≤ ·)) (hsizes : ∀ s ∈ sizes, siz ≤ s ∧ s ≤ 16)
    (hroom : code * 2 ^ (16 - siz) + kraft 16 sizes ≤ 2 ^ 16) :
    List.zipWith (fun (p : Nat × Nat) (value : UInt8) => (⟨p.1, p.2, value.toNat⟩ : Elem Nat))
        (sizes.zip (huffcode code siz sizes)) huffval
      = canonical 16 (code * 2 ^ (16 - siz)) (sizes.zip (huffval.map UInt8.toNat)) := by
  induction sizes generalizing code siz huffval with
  | nil => rfl
  | cons s sizes ih =>
    rcases huffval with _ | ⟨value, huffval⟩
    · rfl
    obtain ⟨hle, hsorted⟩ := List.pairwise_cons.mp hsorted
    obtain ⟨hsiz, hfit⟩ := hsizes s List.mem_cons_self
    have hpos := Nat.two_pow_pos (16 - s)
    have hplace := shiftLeft_place code hsiz hfit
    rw [kraft_cons] at hroom
    -- it is a WORD, and has not lost a bit
    have hlt : code <<< (s - siz) < 2 ^ 16 := by
      have hle' := Nat.le_mul_of_pos_right (code <<< (s - siz)) hpos
      lia
    have hnext : (code <<< (s - siz) + 1) * 2 ^ (16 - s)
        = code * 2 ^ (16 - siz) + 2 ^ (16 - s) := by
      rw [Nat.succ_mul, hplace]
    have hrest := ih (code <<< (s - siz) + 1) s huffval hsorted
      (fun x hx => ⟨hle x hx, (hsizes x (List.mem_cons_of_mem _ hx)).2⟩) (by lia)
    have hdiv : code * 2 ^ (16 - siz) / 2 ^ (16 - s) = code <<< (s - siz) := by
      rw [← hplace, Nat.mul_div_cancel _ hpos]
    rw [huffcode, Nat.mod_eq_of_lt hlt]
    show (_ : Elem Nat) :: _ = _ :: canonical 16 (code * 2 ^ (16 - siz) + 2 ^ (16 - s)) _
    rw [hdiv, ← hnext]
    exact congrArg (_ :: ·) hrest

theorem IsPrefixCode.sizes (h : IsPrefixCode counts huffval) :
    ∀ s ∈ huffsize counts, 1 ≤ s ∧ s ≤ 16 := by
  intro s hs
  have hbounds := mem_sizesFrom (huffsize_eq ▸ hs)
  rw [h.sixteen] at hbounds
  lia

theorem huffsize_sorted (counts : List UInt8) : (huffsize counts).Pairwise (· ≤ ·) :=
  sizesFrom_sorted

theorem headD_le (h16 : counts.length = 16) :
    ∀ s ∈ huffsize counts, (huffsize counts).headD 0 ≤ s ∧ s ≤ 16 := by
  intro s hs
  have hs' := mem_sizesFrom (show s ∈ sizesFrom 1 counts from hs)
  refine ⟨?_, by lia⟩
  have hsorted := huffsize_sorted counts
  generalize huffsize counts = sizes at hsorted hs
  rcases sizes with _ | ⟨a, sizes⟩
  · cases hs
  · rcases List.mem_cons.mp hs with rfl | hs
    · exact Nat.le_refl _
    · exact (List.pairwise_cons.mp hsorted).1 s hs

/-- **The decoder's codes** are the canonical ones if there is room for them. -/
theorem codes_eq_canonical (h16 : counts.length = 16)
    (hroom : PrefixCode.kraft 16 (huffsize counts) ≤ 2 ^ 16) :
    codes counts huffval = canonicalCodes counts huffval := by
  have hcodes := zipWith_huffcode 0 ((huffsize counts).headD 0) huffval (huffsize_sorted counts)
    (headD_le h16) (by rw [Nat.zero_mul, Nat.zero_add]; exact hroom)
  rw [Nat.zero_mul] at hcodes
  exact hcodes

theorem IsPrefixCode.codes_eq (h : IsPrefixCode counts huffval) :
    codes counts huffval = canonicalCodes counts huffval := codes_eq_canonical h.sixteen h.kraft

theorem IsPrefixCode.fst_zip (h : IsPrefixCode counts huffval) :
    ((huffsize counts).zip (huffval.map UInt8.toNat)).map (·.1) = huffsize counts := by
  refine List.map_fst_zip ?_
  rw [huffsize_eq, length_sizesFrom, List.length_map]
  exact h.values

theorem IsPrefixCode.chained (h : IsPrefixCode counts huffval) :
    Chained 16 0 (codes counts huffval) := by
  have hfst := h.fst_zip
  have hsorted : ((huffsize counts).zip (huffval.map UInt8.toNat)).Pairwise
      fun a b => a.1 ≤ b.1 := by
    refine List.pairwise_map.mp ?_
    rw [hfst]
    exact sizesFrom_sorted
  have hsizes : ∀ a ∈ (huffsize counts).zip (huffval.map UInt8.toNat), 1 ≤ a.1 ∧ a.1 ≤ 16 := by
    intro a ha
    exact h.sizes a.1 (List.of_mem_zip ha).1
  have hne : (huffsize counts).zip (huffval.map UInt8.toNat) ≠ [] := by
    intro hnil
    have hlen := congrArg List.length hfst
    rw [hnil, huffsize_eq, length_sizesFrom] at hlen
    have hsome := h.some
    rw [← hlen] at hsome
    cases hsome
  have hkraft := h.kraft
  rw [← hfst] at hkraft
  rw [h.codes_eq]
  refine canonical_chained hsorted hsizes (fun a _ => Nat.dvd_zero _) ?_
  rw [Nat.zero_add]
  -- no room is left only if the last word consists of ones
  refine Nat.lt_of_le_of_ne hkraft fun heq => ?_
  obtain ⟨e, he, hones⟩ := canonical_ones hne hsorted hsizes (fun a _ => Nat.dvd_zero _)
    (by rw [Nat.zero_add]; exact heq)
  exact h.noOnes e he hones

theorem IsPrefixCode.map_size (h : IsPrefixCode counts huffval) :
    (codes counts huffval).map (·.size) = huffsize counts := by
  rw [h.codes_eq, canonicalCodes, canonical_sizes, h.fst_zip]

theorem IsPrefixCode.length_long (h : IsPrefixCode counts huffval) (hix : mainIxLen ≤ 16) :
    ((codes counts huffval).dropWhile (·.size ≤ mainIxLen)).length
      = numCodes (counts.drop mainIxLen) := by
  rw [← length_dropWhile_huffsize (h.sixteen.symm ▸ hix), ← h.map_size, List.dropWhile_map,
    List.length_map]
  rfl

theorem IsPrefixCode.length_codes (h : IsPrefixCode counts huffval) :
    (codes counts huffval).length = numCodes counts := by
  rw [← List.length_map (f := (·.size)), h.map_size, huffsize_eq, length_sizesFrom]

end Sizes

/-! ## The lookup -/

/-- What is asked of the lookup where the next bits are `bits`: the value of the one word that they
begin with, behind which the reader stands then, and a syntax error if there is none. -/
def DecodesAs (es : List (Elem Nat)) (tail : List UInt8) (bits : List Bool) :
    Except Stop (Nat × Reader) → Prop
  | .ok (value, r') =>
    ∃ e ∈ es, e.bits <+: bits ∧ value = e.value ∧ r'.Holds tail (bits.drop e.size)
      ∧ ∀ x ∈ es, x.bits <+: bits → x = e
  | .error .syntaxErr => ∀ e ∈ es, ¬ e.bits <+: bits
  | .error _ => False

section Lookup

variable {counts huffval : List UInt8} {mainIxLen : Nat} {es : List (Elem Nat)} {e : Elem Nat}
  {bits : List Bool} {r : Reader} {m : UInt8} {t : List UInt8}

theorem field_of_le {n : Nat} (h : n ≤ bits.length) : field n bits = ofBits (bits.take n) := by
  rw [field, List.take_append_of_le_length h]

theorem prefix_iff (hbits : 16 ≤ bits.length) (hsize : e.size ≤ 16) (hcode : e.code < 2 ^ e.size) :
    e.bits <+: bits ↔ e.Prefixes 16 (field 16 bits) := by
  have hlen : (bits.take e.size).length = e.size := List.length_take_of_le (by lia)
  have hfield : field 16 bits / 2 ^ (16 - e.size) = ofBits (bits.take e.size) := by
    rw [← Nat.shiftRight_eq_div_pow, field_shiftRight hsize, field_of_le (by lia)]
  have hback : natBits e.size (ofBits (bits.take e.size)) = bits.take e.size := by
    have hword := natBits_ofBits (bits.take e.size)
    rwa [hlen] at hword
  rw [List.prefix_iff_eq_take, Elem.bits_length, Elem.Prefixes, hfield, Elem.bits]
  constructor
  · intro h
    rw [← h, ofBits_natBits, Nat.mod_eq_of_lt hcode]
  · intro h
    rw [← h, hback]

theorem auxSearch_bounds (auxP : List AuxHuffElem) (code lo hi : Nat) (h : lo ≤ hi) :
    (lo ≤ (auxSearch auxP code lo hi).1 ∧ (auxSearch auxP code lo hi).1 ≤ hi)
      ∧ lo ≤ (auxSearch auxP code lo hi).2 ∧ (auxSearch auxP code lo hi).2 ≤ hi := by
  fun_induction auxSearch auxP code lo hi with
  | case1 lo hi hgap mid hless ih =>
    have hmid := ih (by lia)
    lia
  | case2 lo hi hgap mid hless ih =>
    have hmid := ih (by lia)
    lia
  | case3 lo hi hgap => exact ⟨⟨Nat.le_refl lo, h⟩, h, Nat.le_refl hi⟩

variable (mainIxLen) in
theorem decodeHuff_miss (hm : m ≠ 0) (hr : r.Holds (0xff :: m :: t) bits)
    (hbits : 16 ≤ bits.length) (hix : mainIxLen ≤ 16)
    (hno : ∀ e ∈ codes counts huffval, ¬ e.Prefixes 16 (field 16 bits)) :
    ∃ r', decodeHuff (calcTable counts huffval mainIxLen) mainIxLen r
        = parseAuxCode r' (calcTable counts huffval mainIxLen).auxP
      ∧ r'.Holds (0xff :: m :: t) bits := by
  obtain ⟨r', hload, hholds, -⟩ := readBitsLoad_holds hm hr hix (.inl (by lia))
  have hentry : (calcTable counts huffval mainIxLen).indexP (field mainIxLen bits) = 0 := by
    rw [← field_shiftRight hix]
    refine fillIndex_miss (fun x hx => ?_) 0 _
    have hshort : x.size ≤ mainIxLen := of_decide_eq_true
      (List.mem_takeWhile_imp (p := fun y : Elem Nat => y.size ≤ mainIxLen) hx)
    rw [covers_iff hshort hix]
    exact hno x (List.takeWhile_subset _ hx)
  refine ⟨r', ?_, hholds⟩
  rw [decodeHuff, hload]
  show (if MainHuffElem.size (List.getD _ _ _) = 0 then _ else _) = _
  -- the entry 0 of the main table is the one without a size
  rw [hentry]
  exact if_pos rfl

theorem parseAuxCode_miss (hm : m ≠ 0) (hr : r.Holds (0xff :: m :: t) bits)
    (hbits : 16 ≤ bits.length) {lo : Nat} (hes : Chained 16 lo es) (hsome : es ≠ [])
    (hlen : es.length < 255) (hno : ∀ e ∈ es, ¬ e.Prefixes 16 (field 16 bits)) :
    parseAuxCode r (⟨0, (es.length + 1) % 256, 0⟩ :: es.map auxElem) = .error .syntaxErr := by
  obtain ⟨r', hload, -, -⟩ := readBitsLoad_holds hm hr (Nat.le_refl 16) (.inl hbits)
  generalize hdummy : (⟨0, (es.length + 1) % 256, 0⟩ : AuxHuffElem) = dummy
  have hpos := List.length_pos_of_ne_nil hsome
  have hcount : dummy.size - 1 = es.length := by
    rw [← hdummy]
    show (es.length + 1) % 256 - 1 = _
    lia
  -- whatever entry is looked at, it does not match
  have hmiss : ∀ k, 1 ≤ k → k ≤ es.length →
      ¬ ((dummy :: es.map auxElem).getD k ⟨0, 0, 0⟩).Matches (field 16 bits) := by
    intro k hk hle
    obtain ⟨j, rfl⟩ : ∃ j, k = j + 1 := ⟨k - 1, by lia⟩
    rw [getD_aux dummy hle, matches_auxElem _ hes (List.getElem_mem _)]
    exact hno _ (List.getElem_mem _)
  obtain ⟨⟨h₁, h₂⟩, h₃, h₄⟩ := auxSearch_bounds (dummy :: es.map auxElem) (field 16 bits) 1
    es.length hpos
  rw [parseAuxCode, hload]
  show (if dummy.size < 2 then _ else if _ then _ else if _ then _ else _) = _
  rw [if_neg (show ¬ dummy.size < 2 by lia), hcount, if_neg (hmiss _ h₁ h₂),
    if_neg (hmiss _ h₃ h₄)]

theorem parseAuxCode_outside (hm : m ≠ 0) (hr : r.Holds (0xff :: m :: t) bits)
    (hbits : 16 ≤ bits.length) (hlen : es = [] ∨ (es.length + 1) % 256 < 2) :
    parseAuxCode r (if es.isEmpty then [] else ⟨0, (es.length + 1) % 256, 0⟩ :: es.map auxElem)
      = .error .pastEnd := by
  obtain ⟨r', hload, -, -⟩ := readBitsLoad_holds hm hr (Nat.le_refl 16) (.inl hbits)
  by_cases hnil : es = []
  · subst hnil
    rw [parseAuxCode, hload]
    rfl
  · have hempty : ¬ es.isEmpty = true := by simpa using hnil
    rw [if_neg hempty, parseAuxCode, hload]
    exact if_pos (hlen.resolve_left hnil)

theorem holds_ones : (⟨2 ^ 16 - 1, 16, [0xff, 0xd9]⟩ : Reader).Holds [0xff, 0xd9]
    (List.replicate 16 true) :=
  ⟨by decide, by decide, [], rfl, by decide⟩

theorem IsPrefixCode.prefix_iff (h : IsPrefixCode counts huffval) (hbits : 16 ≤ bits.length)
    (he : e ∈ codes counts huffval) : e.bits <+: bits ↔ e.Prefixes 16 (field 16 bits) :=
  JpegDec.prefix_iff hbits (h.chained.bounds e he).1.2
    (Nat.lt_of_succ_lt (h.chained.code_lt he))

theorem ones_outside (h : IsPrefixCode counts huffval) (hix : mainIxLen ≤ 16)
    (hlong : ¬ (1 ≤ numCodes (counts.drop mainIxLen) ∧ numCodes (counts.drop mainIxLen) ≤ 254)) :
    decodeHuff (calcTable counts huffval mainIxLen) mainIxLen ⟨2 ^ 16 - 1, 16, [0xff, 0xd9]⟩
      = .error .pastEnd := by
  have hno : ∀ e ∈ codes counts huffval,
      ¬ e.Prefixes 16 (field 16 (List.replicate 16 true)) := by
    intro e he hbegins
    have hprefix := (h.prefix_iff (by simp) he).mpr hbegins
    have hfalse := List.mem_of_mem_take (List.prefix_iff_eq_take.mp hprefix ▸
      h.chained.false_mem_bits he)
    exact absurd (List.eq_of_mem_replicate hfalse) (by decide)
  obtain ⟨r', hdecode, hr'⟩ := decodeHuff_miss mainIxLen (by decide) holds_ones
    (by simp) hix hno
  rw [hdecode]
  refine parseAuxCode_outside (by decide) hr' (by simp) ?_
  have hcount := h.length_long hix
  have hlens := congrArg List.length (List.takeWhile_append_dropWhile
    (p := fun x : Elem Nat => x.size ≤ mainIxLen) (l := codes counts huffval))
  rw [List.length_append, h.length_codes] at hlens
  have hmany := h.atMost
  rcases Nat.eq_zero_or_pos (numCodes (counts.drop mainIxLen)) with hzero | hpos
  · exact .inl (List.eq_nil_of_length_eq_zero (hcount.trans hzero))
  · right
    lia

/-- **The lookup** is right for all bits just if there are long words, but not more than the size of
their table can tell. -/
theorem decodeHuff_canonical_iff (h : IsPrefixCode counts huffval)
    (hix : mainIxLen = dcTblIndexLen ∨ mainIxLen = acTblIndexLen) :
    (∀ m t r bits, m ≠ 0 → r.Holds (0xff :: m :: t) bits → 16 ≤ bits.length →
        DecodesAs (canonicalCodes counts huffval) (0xff :: m :: t) bits
          (decodeHuff (calcTable counts huffval mainIxLen) mainIxLen r))
      ↔ 1 ≤ numCodes (counts.drop mainIxLen) ∧ numCodes (counts.drop mainIxLen) ≤ 254 := by
  have hix16 : mainIxLen ≤ 16 := by
    rcases hix with rfl | rfl
    · decide
    · decide
  have hchained := h.chained
  have hlong := h.length_long hix16
  have hcount := h.length_codes
  have hmany := h.atMost
  have haux : (calcTable counts huffval mainIxLen).auxP
      = if ((codes counts huffval).dropWhile (·.size ≤ mainIxLen)).isEmpty then []
        else ⟨0, (((codes counts huffval).dropWhile (·.size ≤ mainIxLen)).length + 1) % 256, 0⟩
          :: ((codes counts huffval).dropWhile (·.size ≤ mainIxLen)).map auxElem := rfl
  have hparts := List.takeWhile_append_dropWhile (p := fun x : Elem Nat => x.size ≤ mainIxLen)
    (l := codes counts huffval)
  have hlens := congrArg List.length hparts
  rw [List.length_append] at hlens
  rw [← h.codes_eq]
  constructor
  · intro hall
    by_contra hcond
    have hasked := hall 0xd9 [] _ _ (by decide) holds_ones (by simp)
    rw [ones_outside h hix16 hcond] at hasked
    exact hasked
  · rintro ⟨hsome, hfew⟩ m t r bits hm hr hbits
    by_cases hfound : ∃ e ∈ codes counts huffval, e.bits <+: bits
    · -- the word is found, and the words before and behind it are no other prefix
      obtain ⟨e, he, rest, rfl⟩ := hfound
      obtain ⟨r', hdecode, hr'⟩ := decodeHuff_finds hm hr hchained (by lia) (by lia) he hix16
      rw [hdecode]
      refine ⟨e, he, List.prefix_append _ _, rfl, ?_, fun x hx hprefix => ?_⟩
      · rwa [List.drop_left' e.bits_length]
      · obtain ⟨front, back, hsplit⟩ := List.append_of_mem he
        rw [hsplit] at hchained hx
        obtain ⟨hfront, hback⟩ := hchained.not_prefixes
          ((h.prefix_iff hbits he).mp (List.prefix_append _ _))
        have hbegins := (h.prefix_iff hbits (hsplit ▸ hx)).mp hprefix
        rcases List.mem_append.mp hx with hx | hx
        · exact absurd hbegins (hfront x hx)
        · rcases List.mem_cons.mp hx with rfl | hx
          · rfl
          · exact absurd hbegins (hback x hx)
    · -- neither of the last two candidates of the search matches
      have hno : ∀ e ∈ codes counts huffval, ¬ e.bits <+: bits :=
        fun e he hprefix => hfound ⟨e, he, hprefix⟩
      have hno' : ∀ e ∈ codes counts huffval, ¬ e.Prefixes 16 (field 16 bits) :=
        fun e he => mt (h.prefix_iff hbits he).mpr (hno e he)
      obtain ⟨r', hdecode, hr'⟩ := decodeHuff_miss mainIxLen hm hr hbits hix16 hno'
      obtain ⟨lo', hchained'⟩ := (hparts.symm ▸ hchained).of_append
      have hne : (codes counts huffval).dropWhile (·.size ≤ mainIxLen) ≠ [] := by
        intro hnil
        rw [hnil, List.length_nil] at hlong
        lia
      have hempty : ¬ ((codes counts huffval).dropWhile (·.size ≤ mainIxLen)).isEmpty = true := by
        simpa using hne
      rw [hdecode, haux, if_neg hempty, parseAuxCode_miss hm hr' hbits hchained' hne (by lia)
        fun e he => hno' e ((List.dropWhile_sublist _).subset he)]
      exact hno

end Lookup

theorem chromDC_ones : DecodesAs (canonicalCodes chromDCCounts chromDCValues) [0xff, 0xd9]
    (List.replicate 16 true)
    (decodeHuff (calcTable chromDCCounts chromDCValues dcTblIndexLen) dcTblIndexLen
      ⟨2 ^ 16 - 1, 16, [0xff, 0xd9]⟩) :=
  (decodeHuff_canonical_iff
    { sixteen := by decide
      some := by decide
      atMost := by decide
      values := by decide
      kraft := by decide
      noOnes := by decide } (.inl rfl)).mpr (by decide) 0xd9 [] _ _ (by decide) holds_ones
    (by simp)

/-- The luminance DC table of the standard has no word of more than nine bits. Ones are no word of
it, and the auxiliary table is looked at, which there is not. -/
theorem lumDC_reads_outside : ¬ ∀ counts huffval mainIxLen, IsPrefixCode counts huffval →
    mainIxLen = dcTblIndexLen ∨ mainIxLen = acTblIndexLen →
    ∀ m t r bits, m ≠ 0 → r.Holds (0xff :: m :: t) bits → 16 ≤ bits.length →
      DecodesAs (canonicalCodes counts huffval) (0xff :: m :: t) bits
        (decodeHuff (calcTable counts huffval mainIxLen) mainIxLen r) := by
  intro hall
  have hcode : IsPrefixCode lumDCCounts lumDCValues :=
    { sixteen := by decide
      some := by decide
      atMost := by decide
      values := by decide
      kraft := by decide
      noOnes := by decide }
  have hasked := hall lumDCCounts lumDCValues dcTblIndexLen hcode (.inl rfl) 0xd9 [] _ _
    (by decide) holds_ones (by simp)
  rw [ones_outside hcode (by decide) (by decide)] at hasked
  exact hasked

end Hplip.Ip.JpegDec
