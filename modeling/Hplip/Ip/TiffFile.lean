import Hplip.Ip.TiffSafe

/-!
# A TIFF file in either byte order

A description of a directory says what its tags are and where their values lie; a file of either
byte order may be described by it. The parser makes of both what the description says, although
it changes the buffer of the one: it puts each number in the order of the machine right before
it reads it, and no two numbers share a byte.
-/

namespace Hplip.Ip.Tiff

open Faults LittleEndian

variable {s s' : Parsing} {buf buf' : List UInt8} {i j k n p q : Nat}

/-! ## Numbers in the order of the file -/

/-- The two byte orders, `II` and `MM`. -/
inductive ByteOrder
  | little
  | big
  deriving DecidableEq

/-- The number of `k` bytes, as a reader of the byte order sees it. -/
def numberAt (o : ByteOrder) (buf : List UInt8) (i k : Nat) : Nat :=
  match o with
  | .little => littleEndian buf i k
  | .big => bigEndian buf i k

theorem bigEndian_congr (h : ∀ q, i ≤ q → q < i + k → byteAt buf q = byteAt buf' q) :
    bigEndian buf i k = bigEndian buf' i k := by
  induction k with
  | zero => rfl
  | succ k ih =>
    rw [bigEndian, bigEndian, ih fun q hlo hhi => h q hlo (by omega), h (i + k) (by omega) (by omega)]

theorem numberAt_congr {o : ByteOrder}
    (h : ∀ q, i ≤ q → q < i + k → byteAt buf q = byteAt buf' q) :
    numberAt o buf i k = numberAt o buf' i k := by
  cases o with
  | little => exact littleEndian_congr h
  | big => exact bigEndian_congr h

theorem littleEndian_swapped (hk : k = 1 ∨ k = 2 ∨ k = 4) (h : i + k ≤ buf.length) :
    littleEndian (swapped buf i k) i k = bigEndian buf i k := by
  rcases hk with rfl | rfl | rfl
  · show littleEndian buf i 1 = bigEndian buf i 1
    rw [bigEndian, bigEndian, Nat.zero_mul, Nat.zero_add]
    rfl
  · show byteAt (exchange buf i (i + 1)) i + 256 * (byteAt (exchange buf i (i + 1)) (i + 1) + 256 * 0)
      = (0 * 256 + byteAt buf (i + 0)) * 256 + byteAt buf (i + 1)
    rw [byteAt_exchange (by lia) (by lia), byteAt_exchange (by lia) (by lia),
      if_neg (by lia), if_pos rfl, if_pos rfl]
    simp only [Nat.add_zero]
    lia
  · exact littleEndian_swapped4 h

theorem byteAt_swapped_of_ge (h : i + k ≤ buf.length) (hq : i + k ≤ q) :
    byteAt (swapped buf i k) q = byteAt buf q := by
  unfold swapped
  split
  · rw [byteAt_exchange (by omega) (by omega), if_neg (by omega), if_neg (by omega)]
  · rw [byteAt_swapped4 h, if_neg (by omega)]
  · rw [byteAt_swapped4 (by rw [swapped4_length]; omega), if_neg (by omega),
      byteAt_swapped4 (by omega), if_neg (by omega)]
  · rfl

theorem byteAt_swapped_outside (h : i + k ≤ buf.length) (hq : q < i ∨ i + k ≤ q) :
    byteAt (swapped buf i k) q = byteAt buf q :=
  hq.elim (byteAt_swapped_of_lt h) (byteAt_swapped_of_ge h)

def Parsing.Has (s : Parsing) (o : ByteOrder) : Prop := s.g.bByteSwap = decide (o = .big)

theorem byteAt_fix (h : i + k ≤ s.buf.length) (hq : q < i ∨ i + k ≤ q) :
    byteAt (s.fix i k).buf q = byteAt s.buf q := by
  rw [Parsing.fix]
  dsimp only
  split
  · exact byteAt_swapped_outside h hq
  · rfl

theorem littleEndian_fix {o : ByteOrder} (ho : s.Has o) (hk : k = 1 ∨ k = 2 ∨ k = 4)
    (h : i + k ≤ s.buf.length) : littleEndian (s.fix i k).buf i k = numberAt o s.buf i k := by
  rw [Parsing.fix, ho]
  cases o with
  | little => rfl
  | big => exact littleEndian_swapped hk h

/-! ## Runs that return -/

theorem run_bind {α β : Type} {x : Parser α} {f : α → Parser β} {a : α}
    (h : x s = .ok (a, s')) : (x >>= f) s = f a s' := by
  have hbind : (x >>= f) s = (x s >>= fun p => f p.1 p.2) := rfl
  rw [hbind, h]
  rfl

theorem run_stop {α β : Type} {x : Parser α} {f : α → Parser β} {e : Stop Unit}
    (h : x s = .error e) : (x >>= f) s = .error e := by
  have hbind : (x >>= f) s = (x s >>= fun p => f p.1 p.2) := rfl
  rw [hbind, h]
  rfl

theorem run_access (h : i + k ≤ s.buf.length) : access i k s = .ok ((), s) := by
  have hget : access i k s = (if i + k ≤ s.buf.length then pure () else fault : Parser Unit) s := rfl
  rw [hget, if_pos h]
  rfl

theorem run_read (h : i + k ≤ s.buf.length) : read i k s = .ok (littleEndian s.buf i k, s) := by
  rw [read, run_bind (run_access h)]
  rfl

theorem run_byteSwap (h : i + k ≤ s.buf.length) :
    byteSwap i k s = .ok ((), { s with buf := swapped s.buf i k }) := by
  rw [byteSwap, run_bind (run_access h)]
  rfl

theorem run_fixed (h : i + k ≤ s.buf.length) : fixed i k s = .ok ((), s.fix i k) := by
  have hget : fixed i k s
      = (if s.g.bByteSwap then byteSwap i k else pure () : Parser Unit) s := rfl
  rw [hget, Parsing.fix]
  by_cases hswap : s.g.bByteSwap = true
  · rw [if_pos hswap, if_pos hswap, run_byteSwap h]
  · rw [if_neg hswap, if_neg hswap]
    rfl

theorem run_insure {P : Prop} [Decidable P] (h : P) : insure P s = .ok ((), s) := by
  rw [insure, if_pos h]
  rfl

theorem run_refused {P : Prop} [Decidable P] (h : ¬ P) : insure P s = .error (.gaveUp ()) := by
  rw [insure, if_neg h]
  rfl

theorem run_swapItems (hk : k = 2 ∨ k = 4 ∨ k = 8) (hlen : s.buf.length < 2 ^ 31)
    (hin : p + (i + n) * k ≤ s.buf.length) :
    swapItems p k i n s = .ok ((), { s with buf := swappedItems p k i n s.buf }) := by
  induction n generalizing i s with
  | zero => rfl
  | succ n ih =>
    have hone : k ≠ 1 := by lia
    have hmono : (i + 1) * k ≤ (i + (n + 1)) * k := Nat.mul_le_mul_right k (by lia)
    rw [Nat.succ_mul] at hmono
    obtain ⟨hbehind, hpos⟩ := item_position p (show i * k < 2 ^ 31 by lia)
    rw [swapItems]
    dsimp only
    rw [if_neg hone, if_neg hbehind, hpos, run_bind (run_byteSwap (by lia)),
      ih (by rwa [swapped_length]) (by rwa [swapped_length, show i + 1 + n = i + (n + 1) by lia])]
    rfl

theorem run_swapItems_one : swapItems p 1 i n s = .ok ((), s) := by
  induction n generalizing i with
  | zero => rfl
  | succ n ih =>
    rw [swapItems]
    dsimp only
    rw [if_pos rfl]
    exact ih

theorem byteAt_swappedItems_of_ge (h : p + (i + n) * k ≤ buf.length)
    (hq : p + (i + n) * k ≤ q) : byteAt (swappedItems p k i n buf) q = byteAt buf q := by
  induction n generalizing i buf with
  | zero => rfl
  | succ n ih =>
    have hmono : (i + 1) * k ≤ (i + (n + 1)) * k := Nat.mul_le_mul_right k (by lia)
    rw [Nat.succ_mul] at hmono
    have hnext : (i + 1 + n) * k = (i + (n + 1)) * k := by rw [show i + 1 + n = i + (n + 1) by lia]
    rw [swappedItems, ih (by rw [swapped_length, hnext]; exact h) (by rw [hnext]; exact hq),
      byteAt_swapped_of_ge (by lia) (by lia)]

/-! ## Descriptions -/

/-- A tag: its items as words, and where they lie if they do not fit into the tag. -/
structure TagDesc where
  id : Nat
  kind : Nat
  count : Nat
  words : Nat → Nat
  offset : Nat

def wordBytes (k : Nat) : Nat := if k = 8 then 4 else k

/-- Where the items of a tag lie, `k` bytes each. -/
def TagDesc.place (t : TagDesc) (pTag k : Nat) : Nat :=
  if t.count * k ≤ 4 then pTag + 8 else t.offset

/-- A tag in a file. Its items are known if its kind is, and there is at least one. -/
structure TagAt (o : ByteOrder) (buf : List UInt8) (t : TagDesc) (pTag : Nat) : Prop where
  entry : pTag + 12 ≤ buf.length
  id : numberAt o buf pTag 2 = t.id
  kind : numberAt o buf (pTag + 2) 2 = t.kind
  count : numberAt o buf (pTag + 4) 4 = t.count
  offset : ∀ k, typeBytes t.kind = some k → 4 < t.count * k →
    numberAt o buf (pTag + 8) 4 = t.offset
  some_item : ∀ k, typeBytes t.kind = some k → 0 < t.count
  value : ∀ k, typeBytes t.kind = some k → t.place pTag k + t.count * k ≤ buf.length
  words : ∀ k, typeBytes t.kind = some k → ∀ j, j * wordBytes k < t.count * k →
    numberAt o buf (t.place pTag k + j * wordBytes k) (wordBytes k) = t.words j

def TagDesc.Touches (t : TagDesc) (pTag q : Nat) : Prop :=
  (pTag ≤ q ∧ q < pTag + 12) ∨
    ∃ k, typeBytes t.kind = some k ∧ t.place pTag k ≤ q ∧ q < t.place pTag k + t.count * k

def TagDesc.Outlying (t : TagDesc) (pTag : Nat) : Prop :=
  ∀ k, typeBytes t.kind = some k → 4 < t.count * k →
    0 < t.offset ∧ (t.offset + t.count * k ≤ pTag ∨ pTag + 12 ≤ t.offset)

/-- No byte of a directory from `pTag` on belongs to two tags. -/
def Apart : Nat → List TagDesc → Prop
  | _, [] => True
  | pTag, t :: ts => t.Outlying pTag ∧
      (∀ i (t' : TagDesc), ts[i]? = some t' → ∀ q, t.Touches pTag q → ¬ t'.Touches (pTag + 12 * (i + 1)) q) ∧
      Apart (pTag + 12) ts

def TagsAt (o : ByteOrder) (buf : List UInt8) (ts : List TagDesc) (pTag : Nat) : Prop :=
  ∀ i t, ts[i]? = some t → TagAt o buf t (pTag + 12 * i)

theorem typeBytes_pos {kind : Nat} (hk : typeBytes kind = some k) : 0 < k := by
  have := (typeBytes_cases hk).1
  lia

theorem wordBytes_le (hk : k = 1 ∨ k = 2 ∨ k = 4 ∨ k = 8) : wordBytes k ≤ k ∧
    (wordBytes k = 1 ∨ wordBytes k = 2 ∨ wordBytes k = 4) := by
  unfold wordBytes
  split <;> lia

theorem TagAt.congr {o : ByteOrder} {t : TagDesc} {pTag : Nat} (h : TagAt o buf t pTag)
    (hlen : buf'.length = buf.length)
    (hsame : ∀ q, t.Touches pTag q → byteAt buf' q = byteAt buf q) : TagAt o buf' t pTag := by
  have hentry : ∀ i k, pTag ≤ i → i + k ≤ pTag + 12 → numberAt o buf' i k = numberAt o buf i k :=
    fun i k hlo hhi => numberAt_congr fun q hq hq' => hsame q (.inl ⟨by lia, by lia⟩)
  refine ⟨hlen ▸ h.entry, ?_, ?_, ?_, fun k hk hlong => ?_, h.some_item, fun k hk => ?_,
    fun k hk j hj => ?_⟩
  · rw [hentry _ _ (Nat.le_refl _) (by lia), h.id]
  · rw [hentry _ _ (by lia) (by lia), h.kind]
  · rw [hentry _ _ (by lia) (by lia), h.count]
  · rw [hentry _ _ (by lia) (by lia), h.offset k hk hlong]
  · rw [hlen]
    exact h.value k hk
  · rw [← h.words k hk j hj]
    refine numberAt_congr fun q hlo hhi => hsame q (.inr ⟨k, hk, by lia, ?_⟩)
    -- a word that begins among the items ends there
    have hend : j * wordBytes k + wordBytes k ≤ t.count * k := by
      obtain ⟨m, hm⟩ : ∃ m, t.count * k = m * wordBytes k := by
        rcases (typeBytes_cases hk).1 with rfl | rfl | rfl | rfl
        · exact ⟨t.count, rfl⟩
        · exact ⟨t.count, rfl⟩
        · exact ⟨t.count, rfl⟩
        · exact ⟨t.count * 2, by show t.count * 8 = t.count * 2 * 4; lia⟩
      rw [hm] at hj ⊢
      rw [← Nat.succ_mul]
      exact Nat.mul_le_mul_right _ (Nat.lt_of_mul_lt_mul_right hj)
    lia

/-! ## What the tags mean -/

structure Kept where
  traits : IpImageTraits
  iBitsPerSample : Int
  dwImageOffset : Nat

def Parsing.kept (s : Parsing) : Kept := ⟨s.g.traits, s.g.iBitsPerSample, s.dwImageOffset⟩

def Parsing.keeping (s : Parsing) (a : Kept) : Parsing :=
  { s with
    g := { s.g with traits := a.traits, iBitsPerSample := a.iBitsPerSample }
    dwImageOffset := a.dwImageOffset }

def keep (id count : Nat) (value : Int) (a : Kept) : Option Kept :=
  if id = imageWidth then some { a with traits := { a.traits with iPixelsPerRow := value } }
  else if id = imageLength then some { a with traits := { a.traits with lNumRows := value } }
  else if id = bitsPerSample then some { a with iBitsPerSample := value }
  else if id = compression then if value = 1 then some a else none
  else if id = stripOffsets then
    if count = 1 then some { a with dwImageOffset := (value % 2 ^ 32).toNat } else none
  else if id = samplesPerPixel then
    some { a with traits := { a.traits with iComponentsPerPixel := value } }
  else if id = xResolution then
    some { a with traits := { a.traits with lHorizDPI := int32 (value * 2 ^ 16) } }
  else if id = yResolution then
    some { a with traits := { a.traits with lVertDPI := int32 (value * 2 ^ 16) } }
  else some a

theorem keepValue_eq (id count : Nat) (value : Int) (s : Parsing) :
    keepValue id count value s = match keep id count value s.kept with
      | some a => .ok ((), s.keeping a)
      | none => .error (.gaveUp ()) := by
  rw [keep]
  unfold keepValue
  dsimp only
  by_cases h₁ : id = imageWidth
  · rw [if_pos h₁, if_pos h₁]
    rfl
  rw [if_neg h₁, if_neg h₁]
  by_cases h₂ : id = imageLength
  · rw [if_pos h₂, if_pos h₂]
    rfl
  rw [if_neg h₂, if_neg h₂]
  by_cases h₃ : id = bitsPerSample
  · rw [if_pos h₃, if_pos h₃]
    rfl
  rw [if_neg h₃, if_neg h₃]
  by_cases h₄ : id = compression
  · rw [if_pos h₄, if_pos h₄]
    by_cases hone : value = 1
    · rw [if_pos hone, run_insure hone]
      rfl
    · rw [if_neg hone, run_refused hone]
  rw [if_neg h₄, if_neg h₄]
  by_cases h₅ : id = stripOffsets
  · rw [if_pos h₅, if_pos h₅]
    by_cases hone : count = 1
    · rw [if_pos hone, run_bind (run_insure hone)]
      rfl
    · rw [if_neg hone, run_stop (run_refused hone)]
  rw [if_neg h₅, if_neg h₅]
  by_cases h₆ : id = samplesPerPixel
  · rw [if_pos h₆, if_pos h₆]
    rfl
  rw [if_neg h₆, if_neg h₆]
  by_cases h₇ : id = xResolution
  · rw [if_pos h₇, if_pos h₇]
    rfl
  rw [if_neg h₇, if_neg h₇]
  by_cases h₈ : id = yResolution
  · rw [if_pos h₈, if_pos h₈]
    rfl
  · rw [if_neg h₈, if_neg h₈]
    rfl

/-- The first item of a tag as an `int`; a fraction of denominator 0 has no value. -/
def itemValue (t : TagDesc) : Option Int :=
  if IsFraction t.kind then
    if t.words 1 = 0 then none else some (int32 (t.words 0 / t.words 1 : Nat))
  else if t.kind = tiffSbyte ∧ 2 ^ 7 ≤ t.words 0 then some ((t.words 0 : Int) - 2 ^ 8)
  else if t.kind = tiffSshort ∧ 2 ^ 15 ≤ t.words 0 then some ((t.words 0 : Int) - 2 ^ 16)
  else some (int32 (t.words 0))

def interpretTag (t : TagDesc) (a : Kept) : Except (Stop Unit) Kept :=
  match typeBytes t.kind with
  | none => .error (.gaveUp ())
  | some _ =>
    match itemValue t with
    | none => .error .fault
    | some value =>
      match keep t.id t.count value a with
      | none => .error (.gaveUp ())
      | some a' => .ok a'

def interpretTags : List TagDesc → Kept → Except (Stop Unit) Kept
  | [], a => .ok a
  | t :: ts, a => interpretTag t a >>= interpretTags ts

/-! ## One tag -/

def Parsing.withBuf (s : Parsing) (buf : List UInt8) : Parsing := { s with buf }

theorem int32_natCast (h : n < 2 ^ 31) : int32 (n : Int) = n := by
  rw [int32]
  lia

theorem fields_described {o : ByteOrder} {t : TagDesc} {pTag : Nat} (ho : s.Has o)
    (ht : TagAt o s.buf t pTag) :
    littleEndian (s.fields pTag).buf pTag 2 = t.id ∧
      littleEndian (s.fields pTag).buf (pTag + 2) 2 = t.kind ∧
      littleEndian (s.fields pTag).buf (pTag + 4) 4 = t.count ∧
      ∀ q, q < pTag ∨ pTag + 8 ≤ q → byteAt (s.fields pTag).buf q = byteAt s.buf q := by
  have hentry := ht.entry
  obtain ⟨s₁, hs₁⟩ : ∃ s₁, s₁ = s.fix pTag 2 := ⟨_, rfl⟩
  obtain ⟨s₂, hs₂⟩ : ∃ s₂, s₂ = s₁.fix (pTag + 2) 2 := ⟨_, rfl⟩
  obtain ⟨s₃, hs₃⟩ : ∃ s₃, s₃ = s₂.fix (pTag + 4) 4 := ⟨_, rfl⟩
  have hfields : s.fields pTag = s₃ := by rw [hs₃, hs₂, hs₁, Parsing.fields]
  have hlen₁ : s₁.buf.length = s.buf.length := hs₁ ▸ Parsing.fix_length
  have hlen₂ : s₂.buf.length = s.buf.length := by rw [hs₂, Parsing.fix_length, hlen₁]
  have ho₁ : s₁.Has o := by rw [hs₁]; exact ho
  have ho₂ : s₂.Has o := by rw [hs₂]; exact ho₁
  have hsame₁ : ∀ q, q < pTag ∨ pTag + 2 ≤ q → byteAt s₁.buf q = byteAt s.buf q := by
    intro q hq
    rw [hs₁, byteAt_fix (by lia) hq]
  have hsame₂ : ∀ q, q < pTag + 2 ∨ pTag + 4 ≤ q → byteAt s₂.buf q = byteAt s₁.buf q := by
    intro q hq
    rw [hs₂, byteAt_fix (by lia) hq]
  have hsame₃ : ∀ q, q < pTag + 4 ∨ pTag + 8 ≤ q → byteAt s₃.buf q = byteAt s₂.buf q := by
    intro q hq
    rw [hs₃, byteAt_fix (by lia) hq]
  rw [hfields]
  refine ⟨?_, ?_, ?_, fun q hq => ?_⟩
  · have hkeep : littleEndian s₃.buf pTag 2 = littleEndian s₁.buf pTag 2 :=
      littleEndian_congr fun q _ hq => by rw [hsame₃ q (by lia), hsame₂ q (by lia)]
    rw [hkeep, hs₁, littleEndian_fix ho (by decide) (by lia), ht.id]
  · have hkeep : littleEndian s₃.buf (pTag + 2) 2 = littleEndian s₂.buf (pTag + 2) 2 :=
      littleEndian_congr fun q _ hq => hsame₃ q (by lia)
    have hbefore : numberAt o s₁.buf (pTag + 2) 2 = numberAt o s.buf (pTag + 2) 2 :=
      numberAt_congr fun q hq _ => hsame₁ q (by lia)
    rw [hkeep, hs₂, littleEndian_fix ho₁ (by decide) (by lia), hbefore, ht.kind]
  · have hbefore : numberAt o s₂.buf (pTag + 4) 4 = numberAt o s.buf (pTag + 4) 4 :=
      numberAt_congr fun q hq _ => by rw [hsame₂ q (by lia), hsame₁ q (by lia)]
    rw [hs₃, littleEndian_fix ho₂ (by decide) (by lia), hbefore, ht.count]
  · rw [hsame₃ q (by lia), hsame₂ q (by lia), hsame₁ q (by lia)]

theorem valuePos_described {o : ByteOrder} {t : TagDesc} {pTag : Nat} (ho : s.Has o)
    (ht : TagAt o s.buf t pTag) (hout : t.Outlying pTag) (hlen : s.buf.length < 2 ^ 31)
    (hk : typeBytes t.kind = some k) :
    ∃ b, valuePos pTag (int32 (t.count * k)) (s.fields pTag)
        = .ok (t.place pTag k, s.withBuf b) ∧ b.length = s.buf.length ∧
      ∀ q, (q < pTag ∨ pTag + 12 ≤ q) ∨ (t.place pTag k ≤ q ∧ q < t.place pTag k + t.count * k) →
        byteAt b q = byteAt s.buf q := by
  obtain ⟨-, -, -, hsame⟩ := fields_described ho ht
  have hentry := ht.entry
  have hvalue := ht.value k hk
  have hint : int32 ((t.count : Int) * k) = (t.count * k : Nat) := by
    rw [← Int.natCast_mul, int32_natCast (by lia)]
  rw [TagDesc.place] at hvalue ⊢
  rw [valuePos, hint]
  by_cases hinline : t.count * k ≤ 4
  · rw [if_pos hinline] at hvalue ⊢
    rw [if_pos (by lia)]
    refine ⟨(s.fields pTag).buf, rfl, Parsing.fields_length, fun q hq => hsame q ?_⟩
    lia
  · rw [if_neg hinline] at hvalue ⊢
    rw [if_neg (by lia)]
    have hout' := (hout k hk (by lia)).2
    have hfields : (s.fields pTag).Has o := ho
    have hoffset : littleEndian ((s.fields pTag).fix (pTag + 8) 4).buf (pTag + 8) 4 = t.offset := by
      have hbefore : numberAt o (s.fields pTag).buf (pTag + 8) 4 = numberAt o s.buf (pTag + 8) 4 :=
        numberAt_congr fun q hq _ => hsame q (by lia)
      rw [littleEndian_fix hfields (by decide) (by rw [Parsing.fields_length]; lia), hbefore,
        ht.offset k hk (by lia)]
    refine ⟨((s.fields pTag).fix (pTag + 8) 4).buf, ?_, ?_, fun q hq => ?_⟩
    · rw [run_bind (run_fixed (by rw [Parsing.fields_length]; lia)),
        run_read (by rw [Parsing.fix_length, Parsing.fields_length]; lia), hoffset]
      rfl
    · rw [Parsing.fix_length, Parsing.fields_length]
    · rw [byteAt_fix (by rw [Parsing.fields_length]; lia) (by lia), hsame q (by lia)]

theorem word_cases (hk : k = 1 ∨ k = 2 ∨ k = 4 ∨ k = 8) (hj : j * wordBytes k < k) :
    (j = 0 ∧ (k = 1 ∨ k = 2 ∨ k = 4)) ∨ (k = 8 ∧ (j = 0 ∨ j = 1)) := by
  rcases hk with rfl | rfl | rfl | rfl
  · have hj : j * 1 < 1 := hj
    lia
  · have hj : j * 2 < 2 := hj
    lia
  · have hj : j * 4 < 4 := hj
    lia
  · have hj : j * 4 < 8 := hj
    lia

theorem word_end (hk : k = 1 ∨ k = 2 ∨ k = 4 ∨ k = 8) (hj : j * wordBytes k < k) :
    j * wordBytes k + wordBytes k ≤ k := by
  rcases word_cases hk hj with ⟨rfl, hone⟩ | ⟨rfl, hj⟩
  · rw [Nat.zero_mul, Nat.zero_add]
    exact (wordBytes_le hk).1
  · show j * 4 + 4 ≤ 8
    lia

theorem fixItems_described {o : ByteOrder} {c : Nat} (ho : s.Has o)
    (hk : k = 1 ∨ k = 2 ∨ k = 4 ∨ k = 8) (hc : 0 < c) (hlen : s.buf.length < 2 ^ 31)
    (hin : p + c * k ≤ s.buf.length) :
    ∃ b, fixItems p k c s = .ok ((), s.withBuf b) ∧ b.length = s.buf.length ∧
      (∀ j, j * wordBytes k < k → littleEndian b (p + j * wordBytes k) (wordBytes k)
        = numberAt o s.buf (p + j * wordBytes k) (wordBytes k)) ∧
      ∀ q, q < p ∨ p + c * k ≤ q → byteAt b q = byteAt s.buf q := by
  have hstart : fixItems p k c s = (if s.g.bByteSwap then
      swapItems p k 0 (int32 c).toNat else pure () : Parser Unit) s := rfl
  have hmul : c ≤ c * k := Nat.le_mul_of_pos_right c (by lia)
  have hint : (int32 (c : Int)).toNat = c := by
    rw [int32_natCast (by lia)]
    exact Int.toNat_natCast c
  rw [hstart, hint]
  have ho' : s.g.bByteSwap = decide (o = .big) := ho
  cases o with
  | little =>
    refine ⟨s.buf, ?_, rfl, fun j _ => rfl, fun q _ => rfl⟩
    rw [ho']
    rfl
  | big =>
    rw [ho', if_pos (by decide)]
    refine ⟨swappedItems p k 0 c s.buf, ?_, swappedItems_length, ?_, ?_⟩
    · by_cases hone : k = 1
      · subst hone
        rw [run_swapItems_one, swappedItems_one]
        rfl
      · exact run_swapItems (by lia) hlen (by rwa [Nat.zero_add])
    · intro j hj
      -- the first item is swapped first, and the others leave it alone
      obtain ⟨m, rfl⟩ : ∃ m, c = m + 1 := ⟨c - 1, by lia⟩
      have hfirst : k ≤ (m + 1) * k := Nat.le_mul_of_pos_left k (Nat.succ_pos m)
      have hrest : ∀ q, q < p + k →
          byteAt (swappedItems p k 0 (m + 1) s.buf) q = byteAt (swapped s.buf p k) q := by
        intro q hq
        have hzero : p + 0 * k = p := by rw [Nat.zero_mul, Nat.add_zero]
        rw [swappedItems, hzero, byteAt_swappedItems_of_lt]
        · rw [swapped_length, Nat.add_comm (0 + 1), Nat.zero_add]
          exact hin
        · rw [Nat.zero_add, Nat.one_mul]
          exact hq
      have hword : j * wordBytes k + wordBytes k ≤ k := word_end hk hj
      rw [littleEndian_congr fun q _ hq => hrest q (by lia)]
      rcases word_cases hk hj with ⟨rfl, hone⟩ | ⟨rfl, htwo⟩
      · have hwidth : wordBytes k = k := if_neg (by lia)
        rw [Nat.zero_mul, Nat.add_zero, hwidth]
        exact littleEndian_swapped hone (by lia)
      · show littleEndian (swapped4 (swapped4 s.buf p) (p + 4)) (p + j * 4) 4
          = bigEndian s.buf (p + j * 4) 4
        have hlow : ∀ q, q < p + 4 → byteAt (swapped4 (swapped4 s.buf p) (p + 4)) q
            = byteAt (swapped4 s.buf p) q := by
          intro q hq
          rw [byteAt_swapped4 (by rw [swapped4_length]; lia), if_neg (by lia)]
        rcases htwo with rfl | rfl
        · show littleEndian (swapped4 (swapped4 s.buf p) (p + 4)) p 4 = bigEndian s.buf p 4
          rw [littleEndian_congr fun q _ hq => hlow q hq, littleEndian_swapped4 (by lia)]
        · rw [Nat.one_mul, littleEndian_swapped4 (by rw [swapped4_length]; lia)]
          refine bigEndian_congr fun q hq _ => ?_
          rw [byteAt_swapped4 (by lia), if_neg (by lia)]
    · intro q hq
      rcases hq with hq | hq
      · exact byteAt_swappedItems_of_lt (by rwa [Nat.zero_add])
          (by rwa [Nat.zero_mul, Nat.add_zero])
      · exact byteAt_swappedItems_of_ge (by rwa [Nat.zero_add]) (by rwa [Nat.zero_add])

theorem readValue_described {t : TagDesc} (hk : typeBytes t.kind = some k)
    (hin : p + k ≤ s.buf.length)
    (hwords : ∀ j, j * wordBytes k < k →
      littleEndian s.buf (p + j * wordBytes k) (wordBytes k) = t.words j) :
    readValue t.kind p s = match itemValue t with
      | some value => .ok (value, s)
      | none => .error .fault := by
  obtain ⟨hcases, hfraction⟩ := typeBytes_cases hk
  rw [readValue, itemValue]
  by_cases hkind : IsFraction t.kind
  · have h8 : k = 8 := hfraction.mp hkind
    subst h8
    have h₀ : littleEndian s.buf p 4 = t.words 0 := hwords 0 (by decide)
    have h₁ : littleEndian s.buf (p + 4) 4 = t.words 1 := hwords 1 (by decide)
    rw [if_pos hkind, if_pos hkind, readFraction, run_bind (run_read (by omega)),
      run_bind (run_read (by omega)), h₀, h₁]
    by_cases hzero : t.words 1 = 0
    · rw [if_pos hzero, if_pos hzero]
      rfl
    · rw [if_neg hzero, if_neg hzero]
      rfl
  · have hne : k ≠ 8 := fun h8 => hkind (hfraction.mpr h8)
    have hword : wordBytes k = k := if_neg hne
    have h₀ := hwords 0 (by rw [Nat.zero_mul]; exact typeBytes_pos hk)
    rw [Nat.zero_mul, Nat.add_zero, hword] at h₀
    rw [if_neg hkind, if_neg hkind, readInteger, hk, Option.getD_some, run_bind (run_read hin), h₀]
    by_cases h₁ : t.kind = tiffSbyte ∧ 2 ^ 7 ≤ t.words 0
    · rw [if_pos h₁, if_pos h₁]
      rfl
    · rw [if_neg h₁, if_neg h₁]
      by_cases h₂ : t.kind = tiffSshort ∧ 2 ^ 15 ≤ t.words 0
      · rw [if_pos h₂, if_pos h₂]
        rfl
      · rw [if_neg h₂, if_neg h₂]
        rfl

/-- **One tag** does what the description says, and changes its own bytes only. -/
theorem parseTag_described {o : ByteOrder} {t : TagDesc} {pTag : Nat} (ho : s.Has o)
    (ht : TagAt o s.buf t pTag) (hout : t.Outlying pTag) (hlen : s.buf.length < 2 ^ 31) :
    ∃ b, b.length = s.buf.length ∧ (∀ q, ¬ t.Touches pTag q → byteAt b q = byteAt s.buf q) ∧
      parseTag pTag s = (interpretTag t s.kept).map fun a => ((), (s.withBuf b).keeping a) := by
  obtain ⟨hid, hkind, hcount, hsame⟩ := fields_described ho ht
  have hentry := ht.entry
  have hparse : parseTag pTag s = (match typeBytes t.kind with
      | none => giveUp ()
      | some nTypeBytes => parseValue pTag t.id t.kind t.count nTypeBytes : Parser Unit)
        (s.fields pTag) := by
    rw [parseTag, run_bind (run_fixed (by lia)),
      run_bind (run_fixed (by rw [Parsing.fix_length]; lia)),
      run_bind (run_fixed (by rw [Parsing.fix_length, Parsing.fix_length]; lia)),
      ← Parsing.fields, run_bind (run_read (by rw [Parsing.fields_length]; lia)),
      run_bind (run_read (by rw [Parsing.fields_length]; lia)),
      run_bind (run_read (by rw [Parsing.fields_length]; lia))]
    rw [hid, hkind]
    exact congrArg (fun n => (match typeBytes t.kind with
      | none => giveUp ()
      | some nTypeBytes => parseValue pTag t.id t.kind n nTypeBytes : Parser Unit)
        (s.fields pTag)) hcount
  rw [hparse, interpretTag]
  rcases hk : typeBytes t.kind with _ | k
  · refine ⟨(s.fields pTag).buf, Parsing.fields_length, fun q hq => hsame q ?_, rfl⟩
    have hnot : ¬ (pTag ≤ q ∧ q < pTag + 12) := fun h => hq (.inl h)
    lia
  obtain ⟨b, hpos, hblen, hbsame⟩ := valuePos_described ho ht hout hlen hk
  have hvalue := ht.value k hk
  have hsome := ht.some_item k hk
  have hkpos := typeBytes_pos hk
  have hone : k ≤ t.count * k := Nat.le_mul_of_pos_left k hsome
  have hplace : 0 < t.place pTag k ∧ t.place pTag k < (s.withBuf b).buf.length := by
    constructor
    · rw [TagDesc.place]
      split
      · lia
      · exact (hout k hk (by lia)).1
    · show _ < b.length
      lia
  obtain ⟨b', hfix, hlen', hwords, hsame'⟩ := fixItems_described (o := o) (s := s.withBuf b)
    (p := t.place pTag k) (c := t.count) ho (typeBytes_cases hk).1 hsome
    (by show b.length < _; lia) (by show _ ≤ b.length; lia)
  have hread := readValue_described (s := s.withBuf b') (p := t.place pTag k) hk
    (by show _ ≤ b'.length; rw [hlen']; show _ ≤ b.length; lia) fun j hj => by
      have hend := word_end (typeBytes_cases hk).1 hj
      have hsame : numberAt o b (t.place pTag k + j * wordBytes k) (wordBytes k)
          = numberAt o s.buf (t.place pTag k + j * wordBytes k) (wordBytes k) :=
        numberAt_congr fun q hlo hhi => hbsame q (.inr ⟨by lia, by lia⟩)
      exact (hwords j hj).trans (hsame.trans (ht.words k hk j (by lia)))
  refine ⟨b', hlen'.trans hblen, fun q hq => ?_, ?_⟩
  · have hnot : ¬ (pTag ≤ q ∧ q < pTag + 12) := fun h => hq (.inl h)
    have hnot' : ¬ (t.place pTag k ≤ q ∧ q < t.place pTag k + t.count * k) :=
      fun h => hq (.inr ⟨k, hk, h⟩)
    exact (hsame' q (by lia)).trans (hbsame q (.inl (by lia)))
  · show parseValue pTag t.id t.kind t.count k (s.fields pTag) = _
    have hget : ∀ f : Parsing → Parser Unit, (get >>= f) (s.withBuf b) = f (s.withBuf b) (s.withBuf b) :=
      fun _ => rfl
    have htwice : (s.withBuf b).withBuf b' = s.withBuf b' := rfl
    rw [parseValue, run_bind hpos, hget, run_bind (run_insure hplace), run_bind hfix, htwice]
    dsimp only
    rcases hvalue : itemValue t with _ | value
    · rw [hvalue] at hread
      exact run_stop hread
    · rw [hvalue] at hread
      have hkept : (s.withBuf b').kept = s.kept := rfl
      rw [run_bind hread, keepValue_eq, hkept]
      dsimp only
      rcases keep t.id t.count value s.kept with _ | a
      · rfl
      · rfl

/-! ## The directory -/

/-- **All tags** do what the description says. -/
theorem parseTags_described {o : ByteOrder} {ts : List TagDesc} {pTag : Nat} (ho : s.Has o)
    (hts : TagsAt o s.buf ts pTag) (hapart : Apart pTag ts) (hlen : s.buf.length < 2 ^ 31) :
    ∃ b, b.length = s.buf.length ∧ parseTags pTag ts.length s
      = (interpretTags ts s.kept).map fun a => ((), (s.withBuf b).keeping a) := by
  induction ts generalizing s pTag with
  | nil => exact ⟨s.buf, rfl, rfl⟩
  | cons t ts ih =>
    obtain ⟨hout, hothers, hrest⟩ := hapart
    have hfirst : TagAt o s.buf t pTag := hts 0 t rfl
    obtain ⟨b, hblen, hbsame, hparse⟩ := parseTag_described ho hfirst hout hlen
    rw [List.length_cons, parseTags, interpretTags]
    rcases htag : interpretTag t s.kept with e | a
    · rw [htag] at hparse
      exact ⟨s.buf, rfl, run_stop hparse⟩
    · rw [htag] at hparse
      have hnext : TagsAt o b ts (pTag + 12) := by
        intro i t' ht'
        have hat := hts (i + 1) t' ht'
        rw [show pTag + 12 * (i + 1) = pTag + 12 + 12 * i by lia] at hat
        refine hat.congr hblen fun q hq => hbsame q fun htouch => ?_
        refine hothers i t' ht' q htouch ?_
        rwa [show pTag + 12 * (i + 1) = pTag + 12 + 12 * i by lia]
      obtain ⟨b', hblen', hparse'⟩ := ih (s := (s.withBuf b).keeping a) ho hnext hrest
        (by show b.length < _; lia)
      refine ⟨b', hblen'.trans hblen, ?_⟩
      rw [run_bind hparse, hparse']
      rfl

/-! ## The header -/

structure Directory where
  offset : Nat
  tags : List TagDesc

/-- A file of the byte order that the directory describes. -/
structure Describes (o : ByteOrder) (buf : List UInt8) (d : Directory) : Prop where
  order : byteAt buf 0 = (if o = .big then 0x4d else 0x49) ∧ IsOrder (byteAt buf 1)
  first : numberAt o buf 4 4 = d.offset
  inside : d.offset + 2 ≤ buf.length
  count : numberAt o buf d.offset 2 = d.tags.length
  tags : TagsAt o buf d.tags (d.offset + 2)

/-- No byte of the file is part of two numbers. -/
structure Separate (d : Directory) : Prop where
  behind : 8 ≤ d.offset
  apart : Apart (d.offset + 2) d.tags
  tags : ∀ i (t : TagDesc), d.tags[i]? = some t → ∀ q, t.Touches (d.offset + 2 + 12 * i) q →
    8 ≤ q ∧ (q < d.offset ∨ d.offset + 2 ≤ q)

def finish (length : Nat) (a : Kept) : Except (Stop Unit) Kept :=
  if a.iBitsPerSample = 1 ∨ a.iBitsPerSample = 8 ∨ a.iBitsPerSample = 16 then
    if a.dwImageOffset ≤ length then
      .ok { a with traits :=
        { a.traits with iBitsPerPixel := int32 (a.iBitsPerSample * a.traits.iComponentsPerPixel) } }
    else .error (.gaveUp ())
  else .error (.gaveUp ())

def Directory.interpret (d : Directory) (length : Nat) (a : Kept) : Except (Stop Unit) Kept :=
  if (0 < d.tags.length ∧ d.tags.length < 100) ∧ d.tags.length * 12 < length then
    interpretTags d.tags { a with dwImageOffset := 0 } >>= finish length
  else .error (.gaveUp ())

def TifInst.parsed (g : TifInst) (o : ByteOrder) (a : Kept) : TifInst :=
  { g with
    traits := a.traits
    iBitsPerSample := a.iBitsPerSample
    bByteSwap := decide (o = .big)
    dwRawRowBytes := rawRowBytes a.traits.iBitsPerPixel a.traits.iPixelsPerRow
    dwInNextPos := a.dwImageOffset }

theorem run_finishTraits (s : Parsing) : (finishTraits s).map (fun p => p.2.g)
    = (finish s.buf.length s.kept).map fun a =>
      { s.g with
        traits := a.traits
        iBitsPerSample := a.iBitsPerSample
        dwRawRowBytes := rawRowBytes a.traits.iBitsPerPixel a.traits.iPixelsPerRow
        dwInNextPos := a.dwImageOffset } := by
  have hget : ∀ f : Parsing → Parser Unit, (get >>= f) s = f s s := fun _ => rfl
  rw [finishTraits, hget, finish]
  by_cases hbits : s.g.iBitsPerSample = 1 ∨ s.g.iBitsPerSample = 8 ∨ s.g.iBitsPerSample = 16
  · have hbits' : s.kept.iBitsPerSample = 1 ∨ s.kept.iBitsPerSample = 8 ∨
        s.kept.iBitsPerSample = 16 := hbits
    rw [if_pos hbits', run_bind (run_insure hbits)]
    by_cases hoffset : s.dwImageOffset ≤ s.buf.length
    · have hoffset' : s.kept.dwImageOffset ≤ s.buf.length := hoffset
      rw [if_pos hoffset', run_bind (run_insure hoffset)]
      rfl
    · have hoffset' : ¬ s.kept.dwImageOffset ≤ s.buf.length := hoffset
      rw [if_neg hoffset', run_stop (run_refused hoffset)]
      rfl
  · have hbits' : ¬ (s.kept.iBitsPerSample = 1 ∨ s.kept.iBitsPerSample = 8 ∨
        s.kept.iBitsPerSample = 16) := hbits
    rw [if_neg hbits', run_stop (run_refused hbits)]
    rfl

/-- **The header of a described file** means what the description says. -/
theorem getActualTraits_described {o : ByteOrder} {d : Directory} (hd : Describes o s.buf d)
    (hsep : Separate d) (hvalid : s.g.dwValidChk = checkValue) (hlen : s.buf.length < 2 ^ 31) :
    (getActualTraits s).map (fun p => p.2.g)
      = (d.interpret s.buf.length s.kept).map fun a => s.g.parsed o a := by
  have hget : ∀ f : Parsing → Parser Unit, (get >>= f) s = f s s := fun _ => rfl
  have hinside := hd.inside
  have hbehind := hsep.behind
  obtain ⟨horder, hsecond⟩ := hd.order
  have hfirst : IsOrder (byteAt s.buf 0) := by
    rw [horder]
    cases o with
    | little => exact .inl rfl
    | big => exact .inr rfl
  have hswap : decide (byteAt s.buf 0 = 0x4d) = decide (o = .big) := by
    rw [horder]
    cases o with
    | little => rfl
    | big => rfl
  -- the state with the byte order, with the first offset, and with the number of tags
  obtain ⟨s₁, hs₁⟩ : ∃ s₁ : Parsing, s₁
      = { s with g := { s.g with bByteSwap := decide (byteAt s.buf 0 = 0x4d) } } := ⟨_, rfl⟩
  obtain ⟨s₂, hs₂⟩ : ∃ s₂, s₂ = s₁.fix 4 4 := ⟨_, rfl⟩
  obtain ⟨s₃, hs₃⟩ : ∃ s₃, s₃ = s₂.fix d.offset 2 := ⟨_, rfl⟩
  have ho₁ : s₁.Has o := by rw [hs₁, Parsing.Has, hswap]
  have ho₂ : s₂.Has o := by rw [hs₂]; exact ho₁
  have ho₃ : s₃.Has o := by rw [hs₃]; exact ho₂
  have hbuf₁ : s₁.buf = s.buf := by rw [hs₁]
  have hlen₂ : s₂.buf.length = s.buf.length := by rw [hs₂, Parsing.fix_length, hbuf₁]
  have hlen₃ : s₃.buf.length = s.buf.length := by rw [hs₃, Parsing.fix_length, hlen₂]
  have hsame₂ : ∀ q, q < 4 ∨ 8 ≤ q → byteAt s₂.buf q = byteAt s.buf q := by
    intro q hq
    rw [hs₂, byteAt_fix (by rw [hbuf₁]; lia) hq, hbuf₁]
  have hsame₃ : ∀ q, q < d.offset ∨ d.offset + 2 ≤ q → byteAt s₃.buf q = byteAt s₂.buf q := by
    intro q hq
    rw [hs₃, byteAt_fix (by lia) hq]
  have hoffset : littleEndian s₂.buf 4 4 = d.offset := by
    rw [hs₂, littleEndian_fix ho₁ (by decide) (by rw [hbuf₁]; lia), hbuf₁, hd.first]
  have hcount : littleEndian s₃.buf d.offset 2 = d.tags.length := by
    rw [hs₃, littleEndian_fix ho₂ (by decide) (by lia),
      numberAt_congr fun q hq _ => hsame₂ q (by lia), hd.count]
  have htags : TagsAt o s₃.buf d.tags (d.offset + 2) := by
    intro i t ht
    refine (hd.tags i t ht).congr hlen₃ fun q hq => ?_
    obtain ⟨h8, hq⟩ := hsep.tags i t ht q hq
    rw [hsame₃ q hq, hsame₂ q (.inr h8)]
  rw [getActualTraits, hget, run_bind (run_insure hvalid), run_bind (run_read (by lia)),
    littleEndian_one, run_bind (run_insure hfirst), run_bind (run_read (by lia)),
    littleEndian_one, run_bind (run_insure hsecond)]
  have hset : ∀ f : Unit → Parser Unit,
      (modify (fun s : Parsing => { s with dwImageOffset := 0 }) >>= f) s₃
        = f () { s₃ with dwImageOffset := 0 } := fun _ => rfl
  have hbegin : ∀ f : Unit → Parser Unit, (modify (fun s' : Parsing =>
      { s' with g := { s'.g with bByteSwap := decide (byteAt s.buf 0 = 0x4d) } }) >>= f) s
        = f () s₁ := fun _ => by rw [hs₁]; rfl
  rw [hbegin, run_bind (run_fixed (by rw [hbuf₁]; lia)), ← hs₂, run_bind (run_read (by lia)),
    hoffset, run_bind (run_insure (by lia)), run_bind (run_fixed (by lia)), ← hs₃,
    run_bind (run_read (by lia)), hcount, Directory.interpret]
  by_cases hmany : 0 < d.tags.length ∧ d.tags.length < 100
  · rw [run_bind (run_insure hmany)]
    by_cases hroom : d.tags.length * 12 < s.buf.length
    · rw [run_bind (run_insure hroom), if_pos ⟨hmany, hroom⟩, hset]
      obtain ⟨b, hblen, hparse⟩ := parseTags_described (o := o)
        (s := { s₃ with dwImageOffset := 0 }) ho₃ htags hsep.apart (by show s₃.buf.length < _; lia)
      have hkept : Parsing.kept { s₃ with dwImageOffset := 0 }
          = { s.kept with dwImageOffset := 0 } := by rw [hs₃, hs₂, hs₁]; rfl
      rw [hkept] at hparse
      rcases hmeaning : interpretTags d.tags { s.kept with dwImageOffset := 0 } with e | a
      · rw [hmeaning] at hparse
        rw [run_stop hparse]
        rfl
      · rw [hmeaning] at hparse
        rw [run_bind hparse, run_finishTraits]
        show (finish b.length a).map _ = (finish s.buf.length a).map _
        rw [show b.length = s.buf.length from hblen.trans hlen₃]
        rcases finish s.buf.length a with e | a'
        · rfl
        · rw [Except.map, Except.map, TifInst.parsed, ← hswap, hs₃, hs₂, hs₁]
          rfl
    · rw [run_stop (run_refused hroom), if_neg fun h => hroom h.2]
      rfl
  · rw [run_stop (run_refused hmany), if_neg fun h => hmany h.1]
    rfl

end Hplip.Ip.Tiff
