import Hplip.Ip.Tiff

/-!
# Where a TIFF header is safe

The parser of a TIFF header checks where the directory begins, how many bytes its tags need, and
where a value begins; it does not check where any of them ends, nor that a denominator is not
zero. Here is the condition on the file under which it stays inside the buffer.
-/

namespace Hplip.Ip.Tiff

open Faults LittleEndian

variable {s s' : Parsing} {buf : List UInt8} {i j k n p q : Nat}

/-- The run does not fault. -/
def Safe {α : Type} (x : Parser α) (s : Parsing) : Prop := Meets x (fun _ _ => True) s

theorem safe_bind {α β : Type} {x : Parser α} {f : α → Parser β} :
    Safe (x >>= f) s ↔ Meets x (fun a s' => Safe (f a) s') s := meets_bind

/-! ## Bytes -/

theorem exchange_length : (exchange buf i j).length = buf.length := by
  rw [exchange, List.length_set, List.length_set]

theorem swapped4_length : (swapped4 buf i).length = buf.length := by
  rw [swapped4, exchange_length, exchange_length]

theorem swapped_length : (swapped buf i k).length = buf.length := by
  unfold swapped
  split
  · exact exchange_length
  · exact swapped4_length
  · rw [swapped4_length, swapped4_length]
  · rfl

theorem getD_set {b : UInt8} (h : i < buf.length) :
    (buf.set i b).getD q 0 = if q = i then b else buf.getD q 0 := by
  rw [List.getD_eq_getElem?_getD, List.getElem?_set]
  by_cases hq : i = q
  · subst hq
    rw [if_pos rfl, if_pos h, if_pos rfl]
    rfl
  · rw [if_neg hq, if_neg (Ne.symm hq), List.getD_eq_getElem?_getD]

theorem byteAt_exchange (hi : i < buf.length) (hj : j < buf.length) :
    byteAt (exchange buf i j) q =
      if q = j then byteAt buf i else if q = i then byteAt buf j else byteAt buf q := by
  rw [byteAt, exchange, getD_set (by rwa [List.length_set])]
  by_cases hqj : q = j
  · rw [if_pos hqj, if_pos hqj, byteAt]
  · rw [if_neg hqj, if_neg hqj, getD_set hi]
    by_cases hqi : q = i
    · rw [if_pos hqi, if_pos hqi, byteAt]
    · rw [if_neg hqi, if_neg hqi, byteAt]

theorem byteAt_swapped4 (h : i + 4 ≤ buf.length) :
    byteAt (swapped4 buf i) q =
      if i ≤ q ∧ q < i + 4 then byteAt buf (2 * i + 3 - q) else byteAt buf q := by
  rw [swapped4, byteAt_exchange (by rw [exchange_length]; lia) (by rw [exchange_length]; lia)]
  simp only [byteAt_exchange (show i + 1 < buf.length by lia) (show i + 2 < buf.length by lia)]
  by_cases hin : i ≤ q ∧ q < i + 4
  · rw [if_pos hin]
    obtain rfl | rfl | rfl | rfl : q = i ∨ q = i + 1 ∨ q = i + 2 ∨ q = i + 3 := by lia
    · rw [show 2 * q + 3 - q = q + 3 by lia]
      simp
    · rw [show 2 * i + 3 - (i + 1) = i + 2 by lia]
      simp
    · rw [show 2 * i + 3 - (i + 2) = i + 1 by lia]
      simp
    · rw [show 2 * i + 3 - (i + 3) = i by lia]
      simp
  · rw [if_neg hin, if_neg (by lia), if_neg (by lia), if_neg (by lia), if_neg (by lia)]

theorem byteAt_swapped_of_lt (h : i + k ≤ buf.length) (hq : q < i) :
    byteAt (swapped buf i k) q = byteAt buf q := by
  unfold swapped
  split
  · rw [byteAt_exchange (by omega) (by omega), if_neg (by omega), if_neg (by omega)]
  · rw [byteAt_swapped4 h, if_neg (by omega)]
  · rw [byteAt_swapped4 (by rw [swapped4_length]; omega), if_neg (by omega),
      byteAt_swapped4 (by omega), if_neg (by omega)]
  · rfl

/-! ## Accesses -/

theorem meets_insure {P : Prop} [Decidable P] {Q : Unit → Parsing → Prop} :
    Meets (insure P) Q s ↔ (P → Q () s) := by
  rw [insure, meets_ite, meets_pure, meets_giveUp]
  exact and_iff_left fun _ => trivial

theorem meets_access {Q : Unit → Parsing → Prop} :
    Meets (access i k) Q s ↔ i + k ≤ s.buf.length ∧ Q () s := by
  rw [access, meets_bind, meets_get, meets_ite, meets_pure, meets_fault]
  constructor
  · intro h
    have hin : i + k ≤ s.buf.length := Decidable.byContradiction h.2
    exact ⟨hin, h.1 hin⟩
  · intro h
    exact ⟨fun _ => h.2, fun hout => hout h.1⟩

theorem meets_read {Q : Nat → Parsing → Prop} :
    Meets (read i k) Q s ↔ i + k ≤ s.buf.length ∧ Q (littleEndian s.buf i k) s := by
  rw [read, meets_bind, meets_access, meets_bind, meets_get, meets_pure]

theorem meets_byteSwap {Q : Unit → Parsing → Prop} :
    Meets (byteSwap i k) Q s ↔
      i + k ≤ s.buf.length ∧ Q () { s with buf := swapped s.buf i k } := by
  rw [byteSwap, meets_bind, meets_access, meets_modify]

def Parsing.fix (s : Parsing) (i k : Nat) : Parsing :=
  { s with buf := if s.g.bByteSwap then swapped s.buf i k else s.buf }

@[simp] theorem Parsing.fix_g : (s.fix i k).g = s.g := rfl

@[simp] theorem Parsing.fix_length : (s.fix i k).buf.length = s.buf.length := by
  rw [Parsing.fix]
  dsimp only
  split
  · exact swapped_length
  · rfl

theorem meets_fixed {Q : Unit → Parsing → Prop} :
    Meets (fixed i k) Q s ↔
      (s.g.bByteSwap = true → i + k ≤ s.buf.length) ∧ Q () (s.fix i k) := by
  rw [fixed, meets_bind, meets_get, meets_ite, meets_byteSwap, meets_pure, Parsing.fix]
  by_cases hswap : s.g.bByteSwap = true
  · simp [hswap]
  · simp [hswap]

/-! ## The items of a value -/

/-- The buffer with so many items swapped, from the `i`-th one on. -/
def swappedItems (p k : Nat) : Nat → Nat → List UInt8 → List UInt8
  | _, 0, buf => buf
  | i, n + 1, buf => swappedItems p k (i + 1) n (swapped buf (p + i * k) k)

theorem swappedItems_length : (swappedItems p k i n buf).length = buf.length := by
  induction n generalizing i buf with
  | zero => rfl
  | succ n ih => rw [swappedItems, ih, swapped_length]

theorem swappedItems_one : swappedItems p 1 i n buf = buf := by
  induction n generalizing i with
  | zero => rfl
  | succ n ih => exact ih

theorem byteAt_swappedItems_of_lt (h : p + (i + n) * k ≤ buf.length) (hq : q < p + i * k) :
    byteAt (swappedItems p k i n buf) q = byteAt buf q := by
  induction n generalizing i buf with
  | zero => rfl
  | succ n ih =>
    have hstep : p + i * k + k ≤ p + (i + (n + 1)) * k := by
      have : (i + 1) * k ≤ (i + (n + 1)) * k := Nat.mul_le_mul_right k (by lia)
      rw [Nat.succ_mul] at this
      lia
    rw [swappedItems, ih, byteAt_swapped_of_lt (by lia) hq]
    · rwa [swapped_length, show i + 1 + n = i + (n + 1) by lia]
    · rw [Nat.succ_mul]
      lia

theorem item_position (p : Nat) {i k : Nat} (h : i * k < 2 ^ 31) :
    ¬ (p : Int) + int32 ((i : Int) * k) < 0 ∧
      ((p : Int) + int32 ((i : Int) * k)).toNat = p + i * k := by
  have hdist : int32 ((i : Int) * k) = (i * k : Nat) := by
    rw [int32, ← Int.natCast_mul]
    lia
  rw [hdist]
  constructor
  · lia
  · lia

theorem meets_swapItems {Q : Unit → Parsing → Prop} (hk : k = 2 ∨ k = 4 ∨ k = 8)
    (hlen : s.buf.length < 2 ^ 32) (hi : i * k ≤ 2 ^ 31) (hp : p + i * k ≤ s.buf.length) :
    Meets (swapItems p k i n) Q s ↔
      ((i + n) * k ≤ 2 ^ 31 ∧ p + (i + n) * k ≤ s.buf.length) ∧
        Q () { s with buf := swappedItems p k i n s.buf } := by
  induction n generalizing i s with
  | zero =>
    rw [swapItems, meets_pure, swappedItems]
    exact (and_iff_right ⟨hi, hp⟩).symm
  | succ n ih =>
    have hone : k ≠ 1 := by lia
    have hsucc : (i + 1) * k = i * k + k := Nat.succ_mul i k
    have hmono : (i + 1) * k ≤ (i + (n + 1)) * k := Nat.mul_le_mul_right k (by lia)
    rw [swapItems]
    rcases Nat.lt_or_ge (i * k) (2 ^ 31) with hlt | hge
    · -- the distance is the product itself
      obtain ⟨hbehind, hpos⟩ := item_position p hlt
      have hsteps : i * k + k ≤ 2 ^ 31 := by
        rcases hk with rfl | rfl | rfl
        · lia
        · lia
        · lia
      dsimp only
      rw [if_neg hone, if_neg hbehind, hpos, meets_bind, meets_byteSwap]
      constructor
      · rintro ⟨hin, hrest⟩
        rw [ih (by rwa [swapped_length]) (by lia) (by rw [swapped_length]; lia),
          swapped_length, show i + 1 + n = i + (n + 1) by lia] at hrest
        exact hrest
      · rintro ⟨⟨hmul, hin⟩, hQ⟩
        refine ⟨by lia, ?_⟩
        rw [ih (by rwa [swapped_length]) (by lia) (by rw [swapped_length]; lia),
          swapped_length, show i + 1 + n = i + (n + 1) by lia]
        exact ⟨⟨hmul, hin⟩, hQ⟩
    · -- the product wraps, and the item lies before the buffer
      have hdist : int32 ((i : Int) * k) = -2 ^ 31 := by
        rw [int32, ← Int.natCast_mul]
        lia
      dsimp only
      rw [if_neg hone, if_pos (by rw [hdist]; lia), meets_bind, meets_fault]
      refine iff_of_false id fun h => ?_
      have := h.1.1
      lia

theorem meets_swapItems_one {Q : Unit → Parsing → Prop} :
    Meets (swapItems p 1 i n) Q s ↔ Q () s := by
  induction n generalizing i with
  | zero => exact Iff.rfl
  | succ n ih =>
    rw [swapItems]
    dsimp only
    rw [if_pos rfl]
    exact ih

/-! ## The value of a tag -/

/-- The big-endian number of `k` bytes. -/
def bigEndian (buf : List UInt8) (i : Nat) : Nat → Nat
  | 0 => 0
  | k + 1 => bigEndian buf i k * 256 + byteAt buf (i + k)

def itemsSwapped (s : Parsing) (count : Nat) : Nat :=
  if s.g.bByteSwap then (int32 count).toNat else 0

/-- The denominator of a fraction, in the order of the file if the loop gets to it. -/
def denominator (s : Parsing) (count pValue : Nat) : Nat :=
  if itemsSwapped s count = 0 then littleEndian s.buf (pValue + 4) 4
  else bigEndian s.buf (pValue + 4) 4

/-- A value of `count` items of `k` bytes is inside: its first item, and, where they are swapped,
all its items, at distances that an `int` holds; and it does not divide by zero. -/
structure ValueInside (s : Parsing) (kind k count pValue : Nat) : Prop where
  first : pValue + k ≤ s.buf.length
  items : k ≠ 1 → itemsSwapped s count * k ≤ 2 ^ 31 ∧
    pValue + itemsSwapped s count * k ≤ s.buf.length
  divides : IsFraction kind → denominator s count pValue ≠ 0

theorem typeBytes_cases {kind : Nat} (h : typeBytes kind = some k) :
    (k = 1 ∨ k = 2 ∨ k = 4 ∨ k = 8) ∧ (IsFraction kind ↔ k = 8) := by
  unfold typeBytes at h
  split at h <;> cases h <;> decide

theorem bigEndian_four : bigEndian buf i 4 =
    ((byteAt buf i * 256 + byteAt buf (i + 1)) * 256 + byteAt buf (i + 2)) * 256
      + byteAt buf (i + 3) := by
  simp only [bigEndian, Nat.zero_mul, Nat.zero_add, Nat.add_zero]

theorem littleEndian_swapped4 (h : i + 4 ≤ buf.length) :
    littleEndian (swapped4 buf i) i 4 = bigEndian buf i 4 := by
  have hbyte : ∀ j < 4, byteAt (swapped4 buf i) (i + j) = byteAt buf (i + (3 - j)) := by
    intro j hj
    rw [byteAt_swapped4 h, if_pos (by lia), show 2 * i + 3 - (i + j) = i + (3 - j) by lia]
  have h₀ := hbyte 0 (by decide)
  rw [Nat.add_zero] at h₀
  rw [littleEndian_four, bigEndian_four, h₀, hbyte 1 (by decide), hbyte 2 (by decide),
    hbyte 3 (by decide)]
  simp only [Nat.sub_zero, Nat.add_zero, Nat.reduceSub]
  lia

theorem denominator_swapped {count : Nat} (h : p + 8 ≤ s.buf.length)
    (hitems : p + itemsSwapped s count * 8 ≤ s.buf.length) :
    littleEndian (swappedItems p 8 0 (itemsSwapped s count) s.buf) (p + 4) 4
      = denominator s count p := by
  rw [denominator]
  rcases hn : itemsSwapped s count with _ | n
  · rw [if_pos rfl, swappedItems]
  · rw [hn] at hitems
    rw [if_neg (Nat.succ_ne_zero n), swappedItems, Nat.zero_mul]
    have hlow : littleEndian (swappedItems p 8 1 n (swapped s.buf p 8)) (p + 4) 4
        = littleEndian (swapped s.buf p 8) (p + 4) 4 :=
      littleEndian_congr fun q _ hq => byteAt_swappedItems_of_lt
        (by rw [swapped_length]; lia) (by lia)
    refine hlow.trans ?_
    show littleEndian (swapped4 (swapped4 s.buf p) (p + 4)) (p + 4) 4 = _
    rw [littleEndian_swapped4 (by rw [swapped4_length]; lia), bigEndian_four, bigEndian_four]
    simp only [byteAt_swapped4 (show p + 4 ≤ s.buf.length by lia)]
    rw [if_neg (by lia), if_neg (by lia), if_neg (by lia), if_neg (by lia)]

theorem meets_readValue {kind : Nat} (hk : typeBytes kind = some k) {Q : Prop} :
    Meets (readValue kind p) (fun _ _ => Q) s ↔
      (p + k ≤ s.buf.length ∧ (IsFraction kind → littleEndian s.buf (p + 4) 4 ≠ 0)) ∧ Q := by
  have hfraction := (typeBytes_cases hk).2
  rw [readValue]
  by_cases hkind : IsFraction kind
  · have h8 : k = 8 := hfraction.mp hkind
    subst h8
    rw [if_pos hkind, readFraction, meets_bind, meets_read, meets_bind, meets_read, meets_ite,
      meets_fault, meets_pure]
    constructor
    · rintro ⟨-, hin, hzero, hQ⟩
      by_cases hd : littleEndian s.buf (p + 4) 4 = 0
      · exact absurd (hzero hd) id
      · exact ⟨⟨by omega, fun _ => hd⟩, hQ hd⟩
    · rintro ⟨⟨hin, hd⟩, hQ⟩
      exact ⟨by omega, by omega, fun hzero => absurd hzero (hd hkind), fun _ => hQ⟩
  · rw [if_neg hkind, readInteger, hk, Option.getD_some, meets_bind, meets_read, meets_ite,
      meets_pure, meets_ite, meets_pure, meets_pure]
    constructor
    · rintro ⟨hin, hbyte, hrest⟩
      refine ⟨⟨hin, fun hnot => absurd hnot hkind⟩, ?_⟩
      by_cases h₁ : kind = tiffSbyte ∧ 2 ^ 7 ≤ littleEndian s.buf p k
      · exact hbyte h₁
      · by_cases h₂ : kind = tiffSshort ∧ 2 ^ 15 ≤ littleEndian s.buf p k
        · exact (hrest h₁).1 h₂
        · exact (hrest h₁).2 h₂
    · rintro ⟨⟨hin, -⟩, hQ⟩
      exact ⟨hin, fun _ => hQ, fun _ => ⟨fun _ => hQ, fun _ => hQ⟩⟩

theorem keepValue_safe {id count : Nat} {value : Int} : Safe (keepValue id count value) s := by
  unfold keepValue Safe
  simp only [meets_ite, meets_bind, meets_insure, meets_modify, meets_pure, implies_true, and_self]

theorem value_safe {id kind count : Nat} (hk : typeBytes kind = some k)
    (hlen : s.buf.length < 2 ^ 32) (hp : p < s.buf.length) :
    Safe (do
      fixItems p k count
      let value ← readValue kind p
      keepValue id count value) s ↔ ValueInside s kind k count p := by
  obtain ⟨hcases, hfraction⟩ := typeBytes_cases hk
  have hrest : ∀ s' : Parsing, Safe (do
      let value ← readValue kind p
      keepValue id count value) s' ↔
      p + k ≤ s'.buf.length ∧ (IsFraction kind → littleEndian s'.buf (p + 4) 4 ≠ 0) := by
    intro s'
    rw [safe_bind]
    have hkeep : (fun value s'' => Safe (keepValue id count value) s'')
        = fun (_ : Int) (_ : Parsing) => True := by
      funext value s''
      exact eq_true keepValue_safe
    rw [hkeep, meets_readValue hk, and_iff_left trivial]
  have hloop : Safe (do
      fixItems p k count
      let value ← readValue kind p
      keepValue id count value) s ↔
      (k ≠ 1 → itemsSwapped s count * k ≤ 2 ^ 31 ∧
        p + itemsSwapped s count * k ≤ s.buf.length) ∧
      p + k ≤ s.buf.length ∧ (IsFraction kind →
        littleEndian (swappedItems p k 0 (itemsSwapped s count) s.buf) (p + 4) 4 ≠ 0) := by
    rw [safe_bind, fixItems, meets_bind, meets_get]
    simp only [hrest]
    by_cases hswap : s.g.bByteSwap = true
    · rw [if_pos hswap, itemsSwapped, if_pos hswap]
      by_cases hone : k = 1
      · subst hone
        rw [meets_swapItems_one, swappedItems_one]
        exact (and_iff_right fun hne => absurd rfl hne).symm
      · have hstart : 0 * k ≤ 2 ^ 31 := by
          rw [Nat.zero_mul]
          exact Nat.zero_le _
        have hbegin : p + 0 * k ≤ s.buf.length := by
          rw [Nat.zero_mul]
          exact Nat.le_of_lt hp
        rw [meets_swapItems (by lia) hlen hstart hbegin, swappedItems_length, Nat.zero_add]
        constructor
        · rintro ⟨hitems, hread⟩
          exact ⟨fun _ => hitems, hread⟩
        · rintro ⟨hitems, hread⟩
          exact ⟨hitems hone, hread⟩
    · rw [if_neg hswap, meets_pure, itemsSwapped, if_neg hswap, swappedItems, Nat.zero_mul]
      have hnone : 0 ≤ 2 ^ 31 ∧ p + 0 ≤ s.buf.length := ⟨Nat.zero_le _, Nat.le_of_lt hp⟩
      constructor
      · intro h
        exact ⟨fun _ => hnone, h⟩
      · intro h
        exact h.2
  rw [hloop]
  constructor
  · rintro ⟨hitems, hfirst, hdivides⟩
    refine ⟨hfirst, hitems, fun hkind => ?_⟩
    have h8 : k = 8 := hfraction.mp hkind
    subst h8
    rw [← denominator_swapped hfirst (hitems (by decide)).2]
    exact hdivides hkind
  · rintro ⟨hfirst, hitems, hdivides⟩
    refine ⟨hitems, hfirst, fun hkind => ?_⟩
    have h8 : k = 8 := hfraction.mp hkind
    subst h8
    rw [denominator_swapped hfirst (hitems (by decide)).2]
    exact hdivides hkind

/-! ## A tag -/

def Parsing.fields (s : Parsing) (pTag : Nat) : Parsing :=
  ((s.fix pTag 2).fix (pTag + 2) 2).fix (pTag + 4) 4

@[simp] theorem Parsing.fields_g : (s.fields i).g = s.g := rfl

@[simp] theorem Parsing.fields_length : (s.fields i).buf.length = s.buf.length := by
  simp [Parsing.fields]

/-- The value of a tag is inside: where the tag says where it is, that is in the buffer, and if
it begins in the buffer it stays there. -/
def ValueOk (s : Parsing) (pTag kind count k : Nat) : Prop :=
  if int32 (count * k) ≤ 4 then
    pTag + 8 < s.buf.length → ValueInside s kind k count (pTag + 8)
  else
    pTag + 12 ≤ s.buf.length ∧
      let s' := s.fix (pTag + 8) 4
      let pValue := littleEndian s'.buf (pTag + 8) 4
      (0 < pValue ∧ pValue < s.buf.length → ValueInside s' kind k count pValue)

/-- A tag is inside: its kind and count, and its value if the kind is known. -/
def TagInside (pTag : Nat) (s : Parsing) : Prop :=
  pTag + 8 ≤ s.buf.length ∧
    let s' := s.fields pTag
    ∀ k, typeBytes (littleEndian s'.buf (pTag + 2) 2) = some k →
      ValueOk s' pTag (littleEndian s'.buf (pTag + 2) 2) (littleEndian s'.buf (pTag + 4) 4) k

theorem parseValue_safe {pTag id kind count : Nat} (hk : typeBytes kind = some k)
    (hlen : s.buf.length < 2 ^ 32) :
    Safe (parseValue pTag id kind count k) s ↔ ValueOk s pTag kind count k := by
  have hrest : ∀ (pValue : Nat) (s' : Parsing), s'.buf.length < 2 ^ 32 →
      (Safe (do
        let s ← get
        insure (0 < pValue ∧ pValue < s.buf.length)
        fixItems pValue k count
        let value ← readValue kind pValue
        keepValue id count value) s' ↔
      (0 < pValue ∧ pValue < s'.buf.length → ValueInside s' kind k count pValue)) := by
    intro pValue s' hlen'
    rw [safe_bind, meets_get, safe_bind, meets_insure]
    constructor
    · intro h hin
      exact (value_safe hk hlen' hin.2).mp (h hin)
    · intro h hin
      exact (value_safe hk hlen' hin.2).mpr (h hin)
  rw [parseValue, safe_bind, valuePos, ValueOk]
  by_cases hinline : int32 (count * k) ≤ 4
  · rw [if_pos hinline, if_pos hinline, meets_pure, hrest _ _ hlen]
    constructor
    · intro h hlt
      exact h ⟨by omega, hlt⟩
    · intro h hin
      exact h hin.2
  · rw [if_neg hinline, if_neg hinline, meets_bind, meets_fixed, meets_read,
      hrest _ _ (by rwa [Parsing.fix_length]), Parsing.fix_length]
    constructor
    · rintro ⟨-, hin, h⟩
      exact ⟨by omega, h⟩
    · rintro ⟨hin, h⟩
      exact ⟨fun _ => by omega, by omega, h⟩

/-- **One tag.** -/
theorem parseTag_safe {pTag : Nat} (hlen : s.buf.length < 2 ^ 32) :
    Safe (parseTag pTag) s ↔ TagInside pTag s := by
  rw [parseTag, safe_bind, meets_fixed, safe_bind, meets_fixed, safe_bind, meets_fixed, safe_bind,
    meets_read, safe_bind, meets_read, safe_bind, meets_read, TagInside]
  simp only [Parsing.fix_g, Parsing.fix_length]
  have hvalue : ∀ k, typeBytes (littleEndian (s.fields pTag).buf (pTag + 2) 2) = some k →
      (Safe (parseValue pTag (littleEndian (s.fields pTag).buf pTag 2)
        (littleEndian (s.fields pTag).buf (pTag + 2) 2)
        (littleEndian (s.fields pTag).buf (pTag + 4) 4) k) (s.fields pTag) ↔
      ValueOk (s.fields pTag) pTag (littleEndian (s.fields pTag).buf (pTag + 2) 2)
        (littleEndian (s.fields pTag).buf (pTag + 4) 4) k) := fun k hk =>
    parseValue_safe hk (by rwa [Parsing.fields_length])
  constructor
  · rintro ⟨-, -, -, -, -, hin, h⟩
    refine ⟨by omega, fun k hk => ?_⟩
    rw [← Parsing.fields, hk] at h
    dsimp only at h
    exact (hvalue k hk).mp h
  · rintro ⟨hin, h⟩
    refine ⟨fun _ => by omega, fun _ => by omega, fun _ => by omega, by omega, by omega, by omega,
      ?_⟩
    rw [← Parsing.fields]
    rcases hk : typeBytes (littleEndian (s.fields pTag).buf (pTag + 2) 2) with _ | k
    · trivial
    · dsimp only
      exact (hvalue k hk).mpr (h k hk)

/-! ## The buffer keeps its length -/

def Parsing.length (s : Parsing) : Nat := s.buf.length

theorem preserves_insure {P : Prop} [Decidable P] : Preserves Parsing.length (insure P) :=
  preserves_ite preserves_pure preserves_giveUp

theorem preserves_access : Preserves Parsing.length (access i k) :=
  preserves_bind preserves_get fun _ => preserves_ite preserves_pure preserves_fault

theorem preserves_read : Preserves Parsing.length (read i k) :=
  preserves_bind preserves_access fun _ => preserves_bind preserves_get fun _ => preserves_pure

theorem preserves_byteSwap : Preserves Parsing.length (byteSwap i k) :=
  preserves_bind preserves_access fun _ => preserves_modify fun _ => swapped_length

theorem preserves_fixed : Preserves Parsing.length (fixed i k) :=
  preserves_bind preserves_get fun _ => preserves_ite preserves_byteSwap preserves_pure

theorem preserves_swapItems : Preserves Parsing.length (swapItems p k i n) := by
  induction n generalizing i with
  | zero => exact preserves_pure
  | succ n ih =>
    rw [swapItems]
    exact preserves_ite ih
      (preserves_ite (preserves_bind preserves_fault fun _ => ih)
        (preserves_bind preserves_byteSwap fun _ => ih))

theorem preserves_readValue {kind : Nat} : Preserves Parsing.length (readValue kind p) := by
  refine preserves_ite (preserves_bind preserves_read fun _ => preserves_bind preserves_read fun _ =>
    preserves_ite preserves_fault preserves_pure) (preserves_bind preserves_read fun _ => ?_)
  exact preserves_ite preserves_pure (preserves_ite preserves_pure preserves_pure)

theorem preserves_keepValue {id count : Nat} {value : Int} :
    Preserves Parsing.length (keepValue id count value) := by
  have hkeep : ∀ f : Parsing → Parsing, (∀ s, (f s).length = s.length) →
      Preserves Parsing.length (modify f : Parser Unit) := fun f hf => preserves_modify hf
  unfold keepValue
  exact preserves_ite (hkeep _ fun _ => rfl) (preserves_ite (hkeep _ fun _ => rfl)
    (preserves_ite (hkeep _ fun _ => rfl) (preserves_ite preserves_insure
      (preserves_ite (preserves_bind preserves_insure fun _ => hkeep _ fun _ => rfl)
        (preserves_ite (hkeep _ fun _ => rfl) (preserves_ite (hkeep _ fun _ => rfl)
          (preserves_ite (hkeep _ fun _ => rfl) preserves_pure)))))))

theorem preserves_parseTag {pTag : Nat} : Preserves Parsing.length (parseTag pTag) := by
  have hvalue : ∀ id kind count k, Preserves Parsing.length (parseValue pTag id kind count k) := by
    intro id kind count k
    refine preserves_bind (preserves_ite preserves_pure
      (preserves_bind preserves_fixed fun _ => preserves_read)) fun pValue => ?_
    refine preserves_bind preserves_get fun _ => preserves_bind preserves_insure fun _ => ?_
    refine preserves_bind (preserves_bind preserves_get fun _ =>
      preserves_ite preserves_swapItems preserves_pure) fun _ => ?_
    exact preserves_bind preserves_readValue fun _ => preserves_keepValue
  refine preserves_bind preserves_fixed fun _ => preserves_bind preserves_fixed fun _ =>
    preserves_bind preserves_fixed fun _ => preserves_bind preserves_read fun id =>
    preserves_bind preserves_read fun kind => preserves_bind preserves_read fun count => ?_
  rcases typeBytes kind with _ | k
  · exact preserves_giveUp
  · exact hvalue id kind count k

/-! ## The directory and the header -/

/-- So many tags are inside, each in the buffer as the tags before it left it, up to the first
one that is refused. -/
def TagsInside : Nat → Nat → Parsing → Prop
  | _, 0, _ => True
  | pTag, n + 1, s => TagInside pTag s ∧
      ∀ s', parseTag pTag s = .ok ((), s') → TagsInside (pTag + 12) n s'

theorem parseTags_safe {pTag : Nat} (hlen : s.buf.length < 2 ^ 32) :
    Safe (parseTags pTag n) s ↔ TagsInside pTag n s := by
  induction n generalizing pTag s with
  | zero => exact Iff.rfl
  | succ n ih =>
    rw [parseTags, safe_bind, TagsInside, ← parseTag_safe hlen]
    constructor
    · intro h
      refine ⟨h.mono fun _ _ _ => trivial, fun s' hrun => ?_⟩
      have hkeep : s'.buf.length = s.buf.length := preserves_parseTag s () s' hrun
      exact (ih (by rwa [hkeep])).mp (h.of_ok hrun)
    · rintro ⟨htag, hrest⟩
      refine htag.with_eq.mono fun a s' hrun => ?_
      have hkeep : s'.buf.length = s.buf.length := preserves_parseTag s () s' hrun.2
      exact (ih (by rwa [hkeep])).mpr (hrest s' hrun.2)

def Parsing.ordered (s : Parsing) : Parsing :=
  ({ s with g := { s.g with bByteSwap := decide (byteAt s.buf 0 = 0x4d) } } : Parsing).fix 4 4

/-- The header and its directory are inside: every field that is reached, and every tag. -/
def HeaderInside (s : Parsing) : Prop :=
  s.g.dwValidChk = checkValue → 1 ≤ s.buf.length ∧ (IsOrder (byteAt s.buf 0) →
    2 ≤ s.buf.length ∧ (IsOrder (byteAt s.buf 1) → 8 ≤ s.buf.length ∧
      let offset := littleEndian s.ordered.buf 4 4
      (offset < s.buf.length → offset + 2 ≤ s.buf.length ∧
        let s' := s.ordered.fix offset 2
        let nTags := littleEndian s'.buf offset 2
        (0 < nTags ∧ nTags < 100 → nTags * 12 < s.buf.length →
          TagsInside (offset + 2) nTags { s' with dwImageOffset := 0 }))))

theorem finishTraits_safe : Safe finishTraits s := by
  rw [finishTraits, safe_bind, meets_get, safe_bind, meets_insure]
  intro _
  rw [safe_bind, meets_insure]
  intro _
  trivial

/-- **The parser stays inside exactly on the headers that are inside.** -/
theorem getActualTraits_safe_iff (hlen : s.buf.length < 2 ^ 32) :
    Safe getActualTraits s ↔ HeaderInside s := by
  have hdirectory : ∀ (s' : Parsing) (offset nTags : Nat), s'.buf.length < 2 ^ 32 →
      (Safe (do
        insure (0 < nTags ∧ nTags < 100)
        insure (nTags * 12 < s.buf.length)
        modify fun s => { s with dwImageOffset := 0 }
        parseTags (offset + 2) nTags
        finishTraits) s' ↔
      (0 < nTags ∧ nTags < 100 → nTags * 12 < s.buf.length →
        TagsInside (offset + 2) nTags { s' with dwImageOffset := 0 })) := by
    intro s' offset nTags hlen'
    rw [safe_bind, meets_insure]
    refine imp_congr_right fun _ => ?_
    rw [safe_bind, meets_insure]
    refine imp_congr_right fun _ => ?_
    have htags : Safe (parseTags (offset + 2) nTags) { s' with dwImageOffset := 0 } ↔
        TagsInside (offset + 2) nTags { s' with dwImageOffset := 0 } := parseTags_safe hlen'
    rw [safe_bind, meets_modify, safe_bind, ← htags]
    constructor
    · intro h
      exact h.mono fun _ _ _ => trivial
    · intro h
      exact h.mono fun _ _ _ => finishTraits_safe
  have hordered : s.ordered.buf.length = s.buf.length := Parsing.fix_length
  rw [getActualTraits, safe_bind, meets_get, safe_bind, meets_insure, HeaderInside]
  refine imp_congr_right fun _ => ?_
  rw [safe_bind, meets_read, littleEndian_one, safe_bind, meets_insure, Nat.zero_add]
  refine and_congr_right fun _ => imp_congr_right fun _ => ?_
  rw [safe_bind, meets_read, littleEndian_one, safe_bind, meets_insure]
  refine and_congr_right fun _ => imp_congr_right fun _ => ?_
  rw [safe_bind, meets_modify, safe_bind, meets_fixed, safe_bind, meets_read, ← Parsing.ordered,
    hordered, safe_bind, meets_insure]
  dsimp only
  generalize littleEndian s.ordered.buf 4 4 = offset
  have hrest : Safe (do
        fixed offset 2
        let nTags ← read offset 2
        insure (0 < nTags ∧ nTags < 100)
        insure (nTags * 12 < s.buf.length)
        modify fun s => { s with dwImageOffset := 0 }
        parseTags (offset + 2) nTags
        finishTraits) s.ordered ↔
      offset + 2 ≤ s.buf.length ∧
        let s' := s.ordered.fix offset 2
        let nTags := littleEndian s'.buf offset 2
        (0 < nTags ∧ nTags < 100 → nTags * 12 < s.buf.length →
          TagsInside (offset + 2) nTags { s' with dwImageOffset := 0 }) := by
    rw [safe_bind, meets_fixed, safe_bind, meets_read, hordered, Parsing.fix_length, hordered,
      hdirectory _ _ _ (by rwa [Parsing.fix_length, hordered])]
    exact and_iff_right_of_imp fun h _ => h.1
  rw [hrest]
  exact and_iff_right_of_imp fun h _ => h.1

/-! ## A header that is not -/

def zeroResolution : List UInt8 :=
  [0x49, 0x49, 42, 0, 8, 0, 0, 0] ++ [1, 0] ++ [0x1a, 1, 5, 0, 1, 0, 0, 0, 22, 0, 0, 0] ++
    [1, 0, 0, 0, 0, 0, 0, 0]

def opened (buf : List UInt8) : Parsing :=
  ⟨⟨⟨0, 0, 0, 0, 0, 0, 0, 0⟩, 0, false, 0, 0, checkValue, 0, 0⟩, buf, 0⟩

theorem zero_resolution_divides : ¬ Safe getActualTraits (opened zeroResolution) :=
  not_meets_of_faults (by decide +kernel)

def oneResolution : List UInt8 :=
  [0x49, 0x49, 42, 0, 8, 0, 0, 0] ++ [1, 0] ++ [0x1a, 1, 5, 0, 1, 0, 0, 0, 22, 0, 0, 0] ++
    [1, 0, 0, 0, 1, 0, 0, 0]

theorem getActualTraits_safe_iff_resolution :
    Safe getActualTraits (opened oneResolution) ↔ HeaderInside (opened oneResolution) :=
  getActualTraits_safe_iff (by decide)

end Hplip.Ip.Tiff
