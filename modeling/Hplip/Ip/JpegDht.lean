import Hplip.Ip.JpegHeader
import Hplip.Ip.JpegLookup

/-!
# The accesses of a DHT segment (xjpg_dec.c)

The counts of a table come from the file. They drive the loops that make the sizes and the codes of
the table in arrays of 257 elements, and those that fill the index and the two tables.
-/

namespace Hplip.Ip.JpegDht

open Bits PrefixCode JpegEnc JpegDec
open JpegHdr (TableFits)

/-! ## The accesses -/

inductive Stop where
  /-- It accesses what is not in an array, or reads what it never set. -/
  | outside
  /-- A loop that does not end. -/
  | endless
  | syntaxError
  deriving DecidableEq

section Arrays

variable {α : Type}

/-- The next element of an array of `size` elements is set. -/
def push (size : Nat) (arr : List α) (x : α) : Except Stop (List α) :=
  if arr.length < size then .ok (arr ++ [x]) else .error .outside

def pushAll (size : Nat) (arr : List α) (xs : List α) : Except Stop (List α) :=
  xs.foldlM (push size) arr

def read (arr : List α) (i : Nat) : Except Stop α :=
  match arr[i]? with
  | some x => .ok x
  | none => .error .outside

end Arrays

/-- The inner loop of the codes: `huffcode[k++] = code++`. -/
def countUp (huffsize : List Nat) (siz : Nat) :
    Nat → List Nat → Nat → Except Stop (List Nat × Nat)
  | 0, _, _ => .error .endless
  | rounds + 1, huffcode, code => do
    let huffcode ← push 257 huffcode (code % 2 ^ 16)
    let size ← read huffsize huffcode.length
    if size = siz ∧ huffcode.length < 257 then countUp huffsize siz rounds huffcode (code + 1)
    else return (huffcode, code + 1)

/-- The loop that shifts the next code. A size that has been passed is not met any more. -/
def shiftUp (size : Nat) : Nat → Nat → Nat → Except Stop (Nat × Nat)
  | 0, _, _ => .error .endless
  | rounds + 1, code, siz =>
    if size ≠ siz + 1 then shiftUp size rounds (code <<< 1) (siz + 1)
    else .ok (code <<< 1, siz + 1)

def codeLoop (huffsize : List Nat) : Nat → List Nat → Nat → Nat → Except Stop (List Nat)
  | 0, _, _, _ => .error .endless
  | rounds + 1, huffcode, code, siz => do
    let (huffcode, code) ← countUp huffsize siz 258 huffcode code
    let size ← read huffsize huffcode.length
    if size = 0 then return huffcode
    else
      let (code, siz) ← shiftUp size 256 code siz
      codeLoop huffsize rounds huffcode code siz

/-- `n` entries of `index_p` from `first` on. -/
def fillLoop (size value : Nat) : Nat → Nat → (Nat → Nat) → Except Stop (Nat → Nat)
  | 0, _, indexP => .ok indexP
  | n + 1, codePlusJunk, indexP =>
    if codePlusJunk < size then
      fillLoop size value n (codePlusJunk + 1)
        fun c => if c = codePlusJunk then value else indexP c
    else .error .outside

def mainLoop (mainIxLen totCodes : Nat) : Nat → List (Elem Nat) → List MainHuffElem →
    (Nat → Nat) → Except Stop (List MainHuffElem × (Nat → Nat))
  | _, [], mainP, indexP => .ok (mainP, indexP)
  | i, e :: es, mainP, indexP =>
    if e.size ≤ mainIxLen then do
      let mainP ← push (totCodes + 1) mainP ⟨e.size, e.value⟩
      let extraBits := mainIxLen - e.size
      let indexP ← fillLoop (2 ^ mainIxLen) ((i + 1) % 256) (2 ^ extraBits) (e.code <<< extraBits)
        indexP
      mainLoop mainIxLen totCodes (i + 1) es mainP indexP
    else .ok (mainP, indexP)

/-- `calc_table`. The loops over the tables go up to `tot_codes`, where sizes, codes and values are
set. -/
def calcTableC (counts huffval : List UInt8) (mainIxLen : Nat) : Except Stop HuffTbl := do
  let sizes ← pushAll 257 [] (huffsize counts)
  let totCodes := sizes.length
  let sizes ← push 257 sizes 0
  let siz ← read sizes 0
  let huffcode ← codeLoop sizes 257 [] 0 siz
  let es := List.zipWith
    (fun (p : Nat × Nat) (value : UInt8) => (⟨p.1, p.2, value.toNat⟩ : Elem Nat))
    ((sizes.take totCodes).zip huffcode) huffval
  -- `memset` has cleared the main table and the index
  let (mainP, indexP) ← mainLoop mainIxLen totCodes 0 es [⟨0, 0⟩] fun _ => 0
  let long := es.dropWhile (·.size ≤ mainIxLen)
  -- the one byte that is allocated without long codes is not written
  if long.isEmpty then return ⟨indexP, mainP, []⟩
  else
    let auxP ← pushAll (long.length + 1) [⟨0, (long.length + 1) % 256, 0⟩] (long.map auxElem)
    return ⟨indexP, mainP, auxP⟩

structure Table where
  classId : UInt8
  counts : List UInt8
  values : List UInt8

def Table.ac (t : Table) : Bool := t.classId / 16 ≠ 0

def Table.id (t : Table) : Nat := (t.classId % 16).toNat

def Table.mainIxLen (t : Table) : Nat := if t.ac then acTblIndexLen else dcTblIndexLen

theorem Table.mainIxLen_lt (t : Table) : t.mainIxLen < 16 := by
  rw [Table.mainIxLen]
  by_cases h : t.ac = true
  · rw [if_pos h]
    decide
  · rw [if_neg h]
    decide

def huffDefineTable (t : Table) : Except Stop HuffTbl := do
  if 4 ≤ t.id then .error .outside
  calcTableC t.counts t.values t.mainIxLen

/-- `n` times `read_byte`. -/
def readBytes : Nat → List UInt8 → Except Stop (List UInt8 × List UInt8)
  | 0, next => .ok ([], next)
  | _ + 1, [] => .error .outside
  | n + 1, b :: next => do
    let (bs, next) ← readBytes n next
    return (b :: bs, next)

/-- The loop of `mar_parse_dht`, with the tables that it has defined. -/
def dhtLoop (len : Nat) (next : List UInt8) : Except Stop (List (Table × HuffTbl)) :=
  if 17 < len then do
    let (classId, next) ← readBytes 1 next
    let (numCodesOf, next) ← readBytes 16 next
    let totCodes := numCodes numCodesOf
    if len - 17 < totCodes then .error .syntaxError
    else
      let (bytes, next) ← readBytes totCodes next
      let values ← pushAll 256 [] bytes
      let t : Table := ⟨classId.headD 0, numCodesOf, values⟩
      let tbl ← huffDefineTable t
      let more ← dhtLoop (len - 17 - totCodes) next
      return (t, tbl) :: more
  else if len ≠ 0 then .error .syntaxError
  else return []
termination_by len

/-- `mar_parse_dht`, for the bytes behind the length. -/
def marParseDht (body : List UInt8) : Except Stop (List (Table × HuffTbl)) :=
  dhtLoop body.length body

/-! ## What is asked -/

def HasRoom (sizes : List Nat) : Prop := kraft 16 sizes ≤ 2 ^ 16

instance (sizes : List Nat) : Decidable (HasRoom sizes) := inferInstanceAs (Decidable (_ ≤ _))

/-- A list of counts that is neither empty nor over-subscribed, and an index that leads to each
short code. -/
structure Good (t : Table) (tbl : HuffTbl) : Prop where
  nonempty : 1 ≤ numCodes t.counts
  room : HasRoom (huffsize t.counts)
  index : ∀ i e, (codes t.counts t.values)[i]? = some e → e.size ≤ t.mainIxLen →
    ∀ c, Covers t.mainIxLen e c → tbl.indexP c = i + 1

/-- **A safe reading**: the syntax error, or tables that are good. -/
def Safe : Except Stop (List (Table × HuffTbl)) → Prop
  | .ok defined => ∀ d ∈ defined, Good d.1 d.2
  | .error .syntaxError => True
  | .error _ => False

/-- The tables of a segment up to the end or to the first one that is not whole, and whether the
end has been reached. -/
def tables (body : List UInt8) : List Table × Bool :=
  let counts := (body.drop 1).take 16
  if body.length ≤ 17 then ([], body.isEmpty)
  else if body.length - 17 < numCodes counts then ([], false)
  else
    let rest := tables (body.drop (17 + numCodes counts))
    (⟨body.headD 0, counts, (body.drop 17).take (numCodes counts)⟩ :: rest.1, rest.2)
termination_by body.length
decreasing_by
  rw [List.length_drop]
  lia

/-- A table that can be made. -/
def Table.Fits (t : Table) : Prop :=
  t.id < 4 ∧ (1 ≤ numCodes t.counts ∧ numCodes t.counts ≤ 256)
    ∧ HasRoom ((huffsize t.counts).filter (· ≤ t.mainIxLen))

instance (t : Table) : Decidable t.Fits := inferInstanceAs (Decidable (_ ∧ _ ∧ _))

/-- A segment whose tables can be made and, if it is not turned down anyway, are good. -/
def Fine (body : List UInt8) : Prop :=
  (∀ t ∈ (tables body).1, t.Fits)
    ∧ ((tables body).2 = true → ∀ t ∈ (tables body).1,
      HasRoom (huffsize t.counts) ∧ numCodes (t.counts.take t.mainIxLen) ≤ 255)

/-! ## The arrays -/

section Loops

variable {α : Type} {size : Nat} {arr xs : List α} {x : α}

theorem pushAll_eq (h : arr.length + xs.length ≤ size) : pushAll size arr xs = .ok (arr ++ xs) := by
  induction xs generalizing arr with
  | nil => exact congrArg Except.ok (List.append_nil arr).symm
  | cons x xs ih =>
    rw [List.length_cons] at h
    have hpush : push size arr x = .ok (arr ++ [x]) := if_pos (by lia)
    rw [pushAll, List.foldlM_cons, hpush]
    have hrest := @ih (arr ++ [x]) (by rw [List.length_append, List.length_singleton]; lia)
    rw [List.append_assoc] at hrest
    exact hrest

theorem pushAll_outside (hle : arr.length ≤ size) (h : size < arr.length + xs.length) :
    pushAll size arr xs = .error .outside := by
  induction xs generalizing arr with
  | nil => exact absurd h (by rw [List.length_nil]; lia)
  | cons x xs ih =>
    rw [List.length_cons] at h
    rw [pushAll, List.foldlM_cons]
    by_cases hlt : arr.length < size
    · have hpush : push size arr x = .ok (arr ++ [x]) := if_pos hlt
      rw [hpush]
      have hlen : (arr ++ [x]).length = arr.length + 1 := by
        rw [List.length_append, List.length_singleton]
      exact ih (by lia) (by lia)
    · have hpush : push size arr x = .error .outside := if_neg hlt
      rw [hpush]
      rfl

theorem read_append {front back : List α} {i : Nat} (h : i = front.length) :
    read (front ++ x :: back) i = .ok x := by
  rw [read, h, List.getElem?_append_right (Nat.le_refl _), Nat.sub_self]
  rfl

theorem shiftUp_eq {code siz size rounds : Nat} (hlt : siz < size) (hrounds : size - siz ≤ rounds) :
    shiftUp size rounds code siz = .ok (code <<< (size - siz), size) := by
  induction rounds generalizing code siz with
  | zero => lia
  | succ rounds ih =>
    rw [shiftUp]
    by_cases hnext : size = siz + 1
    · rw [if_neg (not_not.mpr hnext), hnext, Nat.add_sub_cancel_left]
    · rw [if_pos hnext, ih (by lia) (by lia), ← Nat.shiftLeft_add]
      congr 3
      lia

def afterCount (huffsize : List Nat) (rounds siz : Nat) (p : List Nat × Nat) :
    Except Stop (List Nat) := do
  let size ← read huffsize p.1.length
  if size = 0 then return p.1
  else
    let q ← shiftUp size 256 p.2 siz
    codeLoop huffsize rounds p.1 q.1 q.2

theorem codeLoop_succ (huffsize huffcode : List Nat) (rounds code siz : Nat) :
    codeLoop huffsize (rounds + 1) huffcode code siz
      = countUp huffsize siz 258 huffcode code >>= afterCount huffsize rounds siz := rfl

theorem huffcode_shifted (code siz s : Nat) (sizes : List Nat) :
    huffcode (code <<< (s - siz)) s (s :: sizes) = huffcode code siz (s :: sizes) := by
  rw [huffcode, huffcode, Nat.sub_self, Nat.shiftLeft_zero]

theorem countUp_afterCount (front : List Nat) {rest done : List Nat} {siz code rounds inner : Nat}
    (hdone : front.length = done.length) (hsorted : (siz :: rest).Pairwise (· ≤ ·))
    (hpos : 1 ≤ siz) (hfit : ∀ s ∈ siz :: rest, s ≤ 16) (htotal : front.length + rest.length < 256)
    (hrounds : rest.length ≤ rounds) (hinner : rest.length < inner) :
    (countUp (front ++ siz :: rest ++ [0]) siz inner done code >>=
        afterCount (front ++ siz :: rest ++ [0]) rounds siz)
      = .ok (done ++ huffcode code siz (siz :: rest)) := by
  induction rest generalizing front siz done code rounds inner with
  | nil =>
    obtain ⟨inner, rfl⟩ : ∃ n, inner = n + 1 := ⟨inner - 1, by lia⟩
    have hpush : push 257 done (code % 2 ^ 16) = .ok (done ++ [code % 2 ^ 16]) := if_pos (by lia)
    have hread : read (front ++ [siz] ++ [0]) (done ++ [code % 2 ^ 16]).length = .ok 0 :=
      read_append (by simp [hdone])
    have hcount : countUp (front ++ [siz] ++ [0]) siz (inner + 1) done code
        = .ok (done ++ [code % 2 ^ 16], code + 1) := by
      rw [countUp, hpush]
      show (read _ (done ++ [code % 2 ^ 16]).length >>= _) = _
      rw [hread]
      exact if_neg fun h => absurd h.1 (by lia)
    rw [hcount]
    show afterCount _ rounds siz (done ++ [code % 2 ^ 16], code + 1) = _
    rw [afterCount, hread, huffcode, Nat.sub_self, Nat.shiftLeft_zero]
    rfl
  | cons s rest ih =>
    obtain ⟨hle, htail⟩ := List.pairwise_cons.mp hsorted
    have hsiz : siz ≤ s := hle s List.mem_cons_self
    obtain ⟨inner, rfl⟩ : ∃ n, inner = n + 1 := ⟨inner - 1, by lia⟩
    have hfit' : ∀ x ∈ s :: rest, x ≤ 16 := fun x hx => hfit x (List.mem_cons_of_mem _ hx)
    rw [List.length_cons] at htotal hrounds hinner
    have harr : front ++ siz :: s :: rest ++ [0] = (front ++ [siz]) ++ s :: rest ++ [0] := by simp
    have hdone' : (front ++ [siz]).length = (done ++ [code % 2 ^ 16]).length := by simp [hdone]
    have htotal' : (front ++ [siz]).length + rest.length < 256 := by
      rw [List.length_append, List.length_singleton]
      lia
    have hpush : push 257 done (code % 2 ^ 16) = .ok (done ++ [code % 2 ^ 16]) := if_pos (by lia)
    have hread : read (front ++ siz :: s :: rest ++ [0]) (done ++ [code % 2 ^ 16]).length
        = .ok s := by
      rw [harr, List.append_assoc]
      exact read_append hdone'.symm
    have hcodes : huffcode code siz (siz :: s :: rest)
        = code % 2 ^ 16 :: huffcode (code + 1) siz (s :: rest) := by
      rw [huffcode, Nat.sub_self, Nat.shiftLeft_zero]
    have hcount : countUp (front ++ siz :: s :: rest ++ [0]) siz (inner + 1) done code
        = if s = siz ∧ (done ++ [code % 2 ^ 16]).length < 257
          then countUp (front ++ siz :: s :: rest ++ [0]) siz inner (done ++ [code % 2 ^ 16])
            (code + 1)
          else .ok (done ++ [code % 2 ^ 16], code + 1) := by
      rw [countUp, hpush]
      show (read _ (done ++ [code % 2 ^ 16]).length >>= _) = _
      rw [hread]
      rfl
    rw [hcount, hcodes, List.append_cons done _ (huffcode (code + 1) siz (s :: rest))]
    by_cases hsame : s = siz
    · -- the inner loop goes on
      have hlt : (done ++ [code % 2 ^ 16]).length < 257 := by
        rw [← hdone', List.length_append, List.length_singleton]
        lia
      subst hsame
      rw [if_pos ⟨rfl, hlt⟩, harr]
      exact ih _ hdone' htail hpos hfit' htotal' (by lia) (by lia)
    · -- a larger size: the next code is shifted
      obtain ⟨rounds, rfl⟩ : ∃ n, rounds = n + 1 := ⟨rounds - 1, by lia⟩
      have hlt : siz < s := by lia
      have hsmall := hfit' s List.mem_cons_self
      rw [if_neg fun h => hsame h.1]
      show afterCount _ (rounds + 1) siz (done ++ [code % 2 ^ 16], code + 1) = _
      rw [afterCount, hread]
      show (if s = 0 then _ else _) = _
      rw [if_neg (by lia), shiftUp_eq hlt (by lia)]
      show codeLoop _ (rounds + 1) (done ++ [code % 2 ^ 16]) ((code + 1) <<< (s - siz)) s = _
      rw [codeLoop_succ, harr, ih _ hdone' htail (by lia) hfit' htotal' (by lia) (by lia),
        huffcode_shifted]

/-- **The codes** of sizes that fit their array: the loops end, and keep to the arrays. -/
theorem codeLoop_eq {siz : Nat} {sizes : List Nat} (hsorted : (siz :: sizes).Pairwise (· ≤ ·))
    (hpos : 1 ≤ siz) (hfit : ∀ s ∈ siz :: sizes, s ≤ 16) (htotal : sizes.length < 256) :
    codeLoop (siz :: sizes ++ [0]) 257 [] 0 siz = .ok (huffcode 0 siz (siz :: sizes)) :=
  countUp_afterCount [] rfl hsorted hpos hfit (by rw [List.length_nil]; lia)
    (by lia) (by lia)

theorem fillLoop_eq (size value n first : Nat) (indexP : Nat → Nat) :
    fillLoop size value n first indexP
      = if n = 0 ∨ first + n ≤ size
        then .ok fun c => if first ≤ c ∧ c < first + n then value else indexP c
        else .error .outside := by
  induction n generalizing first indexP with
  | zero =>
    rw [if_pos (.inl rfl), fillLoop]
    congr 1
    funext c
    rw [if_neg (by lia)]
  | succ n ih =>
    rw [fillLoop]
    by_cases hlt : first < size
    · rw [if_pos hlt, ih]
      by_cases hroom : first + (n + 1) ≤ size
      · rw [if_pos (by lia), if_pos (.inr hroom)]
        congr 1
        funext c
        by_cases hc : c = first
        · rw [if_neg (by lia), if_pos hc, if_pos (by lia)]
        · rw [if_neg hc]
          exact if_congr (by lia) rfl rfl
      · have hn : ¬ (n = 0 ∨ first + 1 + n ≤ size) := by lia
        rw [if_neg hn, if_neg (by lia)]
    · rw [if_neg hlt, if_neg (by lia)]

def FitsIndex (mainIxLen : Nat) (e : Elem Nat) : Prop :=
  (e.code + 1) <<< (mainIxLen - e.size) ≤ 2 ^ mainIxLen

instance (mainIxLen : Nat) (e : Elem Nat) : Decidable (FitsIndex mainIxLen e) :=
  inferInstanceAs (Decidable (_ ≤ _))

theorem fillLoop_elem (mainIxLen i : Nat) (e : Elem Nat) (indexP : Nat → Nat) :
    fillLoop (2 ^ mainIxLen) ((i + 1) % 256) (2 ^ (mainIxLen - e.size))
        (e.code <<< (mainIxLen - e.size)) indexP
      = if FitsIndex mainIxLen e
        then .ok fun c => if Covers mainIxLen e c then (i + 1) % 256 else indexP c
        else .error .outside := by
  have hpos := Nat.two_pow_pos (mainIxLen - e.size)
  rw [fillLoop_eq]
  have hend : (e.code + 1) <<< (mainIxLen - e.size)
      = e.code <<< (mainIxLen - e.size) + 2 ^ (mainIxLen - e.size) := by
    rw [Nat.shiftLeft_eq, Nat.shiftLeft_eq, Nat.succ_mul]
  refine if_congr ?_ ?_ rfl
  · rw [FitsIndex, hend]
    lia
  · congr 1
    funext c
    refine if_congr ?_ rfl rfl
    rw [Covers]
    lia

abbrev shortCodes (mainIxLen : Nat) (es : List (Elem Nat)) : List (Elem Nat) :=
  es.takeWhile (·.size ≤ mainIxLen)

section Short

variable {mainIxLen : Nat} {e : Elem Nat} {es : List (Elem Nat)}

theorem shortCodes_of_le (h : e.size ≤ mainIxLen) :
    shortCodes mainIxLen (e :: es) = e :: shortCodes mainIxLen es :=
  List.takeWhile_cons_of_pos (decide_eq_true h)

theorem shortCodes_of_not_le (h : ¬ e.size ≤ mainIxLen) : shortCodes mainIxLen (e :: es) = [] :=
  List.takeWhile_cons_of_neg (by simpa using h)

theorem forall_shortCodes {P : Elem Nat → Prop} (h : (es.map (·.size)).Pairwise (· ≤ ·)) :
    (∀ e ∈ shortCodes mainIxLen es, P e) ↔ ∀ e ∈ es, e.size ≤ mainIxLen → P e := by
  induction es with
  | nil => simp
  | cons e es ih =>
    obtain ⟨hle, hsorted⟩ := List.pairwise_cons.mp h
    by_cases hshort : e.size ≤ mainIxLen
    · rw [shortCodes_of_le hshort, List.forall_mem_cons, List.forall_mem_cons, ih hsorted,
        forall_prop_of_true hshort]
    · rw [shortCodes_of_not_le hshort]
      refine iff_of_true nofun fun x hx hsize => ?_
      rcases List.mem_cons.mp hx with rfl | hx
      · exact absurd hsize hshort
      · exact absurd (Nat.le_trans (hle x.size (List.mem_map_of_mem hx)) hsize) hshort

end Short

/-- **The main table and the index** of the short codes. -/
theorem mainLoop_eq {mainIxLen tot i : Nat} {es : List (Elem Nat)} {mainP : List MainHuffElem}
    {indexP : Nat → Nat} (hlen : mainP.length = i + 1) (htot : i + es.length ≤ tot) :
    mainLoop mainIxLen tot i es mainP indexP
      = if ∀ e ∈ shortCodes mainIxLen es, FitsIndex mainIxLen e
        then .ok (mainP ++ (shortCodes mainIxLen es).map fun e => ⟨e.size, e.value⟩,
          fillIndex mainIxLen i (shortCodes mainIxLen es) indexP)
        else .error .outside := by
  induction es generalizing i mainP indexP with
  | nil =>
    rw [if_pos (by simp)]
    show Except.ok (mainP, indexP) = .ok (mainP ++ [], indexP)
    rw [List.append_nil]
  | cons e es ih =>
    rw [List.length_cons] at htot
    rw [mainLoop]
    by_cases hshort : e.size ≤ mainIxLen
    · have hpush : push (tot + 1) mainP ⟨e.size, e.value⟩ = .ok (mainP ++ [⟨e.size, e.value⟩]) :=
        if_pos (by lia)
      rw [if_pos hshort, hpush, shortCodes_of_le hshort]
      show (fillLoop _ _ _ _ _ >>= _) = _
      rw [fillLoop_elem]
      by_cases hfits : FitsIndex mainIxLen e
      · rw [if_pos hfits]
        refine (ih (by rw [List.length_append, List.length_singleton, hlen]) (by lia)).trans ?_
        refine if_congr ?_ ?_ rfl
        · rw [List.forall_mem_cons]
          exact (and_iff_right hfits).symm
        · rw [List.append_assoc]
          rfl
      · rw [if_neg hfits, if_neg fun h => hfits (h e List.mem_cons_self)]
        rfl
    · rw [if_neg hshort, shortCodes_of_not_le hshort, if_pos (by simp)]
      show Except.ok (mainP, indexP) = .ok (mainP ++ [], indexP)
      rw [List.append_nil]

end Loops

/-! ## The table -/

section Tables

variable {counts huffval : List UInt8} {mainIxLen : Nat}

theorem length_huffcode (code siz : Nat) (sizes : List Nat) :
    (huffcode code siz sizes).length = sizes.length := by
  induction sizes generalizing code siz with
  | nil => rfl
  | cons s sizes ih => exact congrArg (· + 1) (ih _ _)

theorem length_huffsize (counts : List UInt8) : (huffsize counts).length = numCodes counts :=
  length_sizesFrom

theorem map_zipWith {l : List (Nat × Nat)} (values : List UInt8) (h : l.length = values.length) :
    (List.zipWith (fun (p : Nat × Nat) (value : UInt8) => (⟨p.1, p.2, value.toNat⟩ : Elem Nat))
      l values).map (fun e => (e.size, e.code)) = l := by
  induction l generalizing values with
  | nil => rfl
  | cons a l ih =>
    rcases values with _ | ⟨v, values⟩
    · cases h
    · exact congrArg (a :: ·) (ih values (Nat.succ.inj h))

theorem map_size_code (hvals : huffval.length = numCodes counts) :
    (codes counts huffval).map (fun e => (e.size, e.code))
      = (huffsize counts).zip (huffcode 0 ((huffsize counts).headD 0) (huffsize counts)) :=
  map_zipWith huffval (by
    rw [List.length_zip, length_huffcode, Nat.min_self, length_huffsize, hvals])

theorem map_size (hvals : huffval.length = numCodes counts) :
    (codes counts huffval).map (·.size) = huffsize counts := by
  have hfst := congrArg (List.map Prod.fst) (map_size_code hvals)
  rw [List.map_map, List.map_fst_zip (by rw [length_huffcode])] at hfst
  exact hfst

theorem tableFits_codes (hvals : huffval.length = numCodes counts) :
    TableFits counts mainIxLen ↔ (0 < numCodes counts ∧ numCodes counts ≤ 256)
      ∧ ∀ e ∈ shortCodes mainIxLen (codes counts huffval), FitsIndex mainIxLen e := by
  rw [TableFits, forall_shortCodes (map_size hvals ▸ huffsize_sorted counts),
    ← map_size_code hvals, List.forall_mem_map]
  rfl

/-- **The table** is made without leaving an array just if it fits. -/
theorem calcTableC_eq (h16 : counts.length = 16) (hvals : huffval.length = numCodes counts)
    (h256 : numCodes counts ≤ 256) :
    calcTableC counts huffval mainIxLen
      = if TableFits counts mainIxLen then .ok (calcTable counts huffval mainIxLen)
        else .error .outside := by
  have hlen := length_huffsize counts
  have hpush : pushAll 257 [] (huffsize counts) = .ok (huffsize counts) :=
    pushAll_eq (by rw [List.length_nil]; lia)
  have hlast : push 257 (huffsize counts) 0 = .ok (huffsize counts ++ [0]) := if_pos (by lia)
  rw [calcTableC, hpush]
  show (push 257 (huffsize counts) 0 >>= _) = _
  rw [hlast]
  show (read (huffsize counts ++ [0]) 0 >>= _) = _
  match hsizes : huffsize counts with
  | [] =>
    -- the second size is read, and there is none
    rw [hsizes] at hlen
    rw [if_neg fun h => absurd h.1.1 (by rw [← hlen]; decide)]
    rfl
  | siz :: sizes =>
    have hread : read (siz :: sizes ++ [0]) 0 = .ok siz := rfl
    have hsorted := huffsize_sorted counts
    have hbounds : ∀ s ∈ siz :: sizes, 1 ≤ s ∧ s ≤ 16 := by
      intro s hs
      rw [← hsizes, huffsize_eq] at hs
      have hs' := mem_sizesFrom hs
      lia
    rw [hsizes] at hsorted hlen
    rw [List.length_cons] at hlen
    have hcodes := codeLoop_eq hsorted (hbounds siz List.mem_cons_self).1
      (fun s hs => (hbounds s hs).2) (by lia)
    have htake : (siz :: sizes ++ [0]).take (siz :: sizes).length = siz :: sizes :=
      List.take_left
    have hes : codes counts huffval = List.zipWith
        (fun (p : Nat × Nat) (value : UInt8) => (⟨p.1, p.2, value.toNat⟩ : Elem Nat))
        ((siz :: sizes).zip (huffcode 0 siz (siz :: sizes))) huffval := by
      rw [codes, hsizes]
      rfl
    have heslen : (codes counts huffval).length = (siz :: sizes).length := by
      rw [hes, List.length_zipWith, List.length_zip, length_huffcode, Nat.min_self, hvals,
        List.length_cons]
      lia
    rw [hread]
    show (codeLoop (siz :: sizes ++ [0]) 257 [] 0 siz >>= _) = _
    rw [hcodes]
    simp only [bind, Except.bind, htake]
    rw [← hes, mainLoop_eq rfl (by rw [heslen, Nat.zero_add])]
    by_cases hfits : ∀ e ∈ shortCodes mainIxLen (codes counts huffval), FitsIndex mainIxLen e
    · have htable : TableFits counts mainIxLen :=
        (tableFits_codes hvals).mpr ⟨⟨by lia, h256⟩, hfits⟩
      rw [if_pos hfits, if_pos htable]
      by_cases hempty : ((codes counts huffval).dropWhile (·.size ≤ mainIxLen)).isEmpty = true
      · simp only [if_pos hempty]
        rw [calcTable, if_pos hempty]
        rfl
      · simp only [if_neg hempty]
        rw [pushAll_eq (by rw [List.length_map, List.length_singleton]; lia), calcTable,
          if_neg hempty]
        rfl
    · rw [if_neg hfits, if_neg fun h => hfits ((tableFits_codes hvals).mp h).2]

theorem fits_iff (code : Nat) {siz : Nat} {sizes : List Nat} (hix : mainIxLen < 16)
    (hsorted : sizes.Pairwise (· ≤ ·)) (hsizes : ∀ s ∈ sizes, siz ≤ s ∧ s ≤ 16)
    (hroom : code * 2 ^ (16 - siz) ≤ 2 ^ 16) :
    (∀ c ∈ sizes.zip (huffcode code siz sizes),
        c.1 ≤ mainIxLen → (c.2 + 1) <<< (mainIxLen - c.1) ≤ 2 ^ mainIxLen)
      ↔ code * 2 ^ (16 - siz) + kraft 16 (sizes.filter (· ≤ mainIxLen)) ≤ 2 ^ 16 := by
  induction sizes generalizing code siz with
  | nil => exact iff_of_true nofun hroom
  | cons s sizes ih =>
    obtain ⟨hle, htail⟩ := List.pairwise_cons.mp hsorted
    obtain ⟨hsiz, hfit⟩ := hsizes s List.mem_cons_self
    by_cases hshort : s ≤ mainIxLen
    · have hpos := Nat.two_pow_pos (16 - s)
      have hplace := shiftLeft_place code hsiz hfit
      have hpow : 2 ^ s * 2 ^ (16 - s) = 2 ^ 16 := by
        rw [← Nat.pow_add, Nat.add_sub_cancel' hfit]
      have hpowix : 2 ^ s * 2 ^ (mainIxLen - s) = 2 ^ mainIxLen := by
        rw [← Nat.pow_add, Nat.add_sub_cancel' hshort]
      have hcode : code <<< (s - siz) ≤ 2 ^ s := by
        refine Nat.le_of_mul_le_mul_right ?_ hpos
        rw [hplace, hpow]
        exact hroom
      have hsmall : 2 ^ s < 2 ^ 16 := Nat.pow_lt_pow_right (by decide) (by lia)
      have hnext : (code <<< (s - siz) + 1) * 2 ^ (16 - s)
          = code * 2 ^ (16 - siz) + 2 ^ (16 - s) := by
        rw [Nat.succ_mul, hplace]
      have hfilter : (s :: sizes).filter (· ≤ mainIxLen)
          = s :: sizes.filter (· ≤ mainIxLen) := List.filter_cons_of_pos (decide_eq_true hshort)
      -- the code is inside of the index if its interval is inside of the windows
      have hhead : (code <<< (s - siz) + 1) <<< (mainIxLen - s) ≤ 2 ^ mainIxLen
          ↔ code * 2 ^ (16 - siz) + 2 ^ (16 - s) ≤ 2 ^ 16 := by
        rw [Nat.shiftLeft_eq, ← hpowix, Nat.mul_le_mul_right_iff (Nat.two_pow_pos _), ← hnext,
          ← hpow, Nat.mul_le_mul_right_iff hpos]
      rw [huffcode, Nat.mod_eq_of_lt (Nat.lt_of_le_of_lt hcode hsmall), List.zip_cons_cons,
        List.forall_mem_cons, forall_prop_of_true hshort, hhead, hfilter, kraft_cons]
      by_cases hin : code * 2 ^ (16 - siz) + 2 ^ (16 - s) ≤ 2 ^ 16
      · rw [and_iff_right hin, ih _ htail (fun x hx =>
          ⟨hle x hx, (hsizes x (List.mem_cons_of_mem _ hx)).2⟩) (hnext ▸ hin), hnext,
          Nat.add_assoc]
      · exact iff_of_false (fun h => hin h.1) (by lia)
    · -- no size from here on is short
      have hlarge : ∀ x ∈ s :: sizes, ¬ x ≤ mainIxLen := by
        intro x hx
        rcases List.mem_cons.mp hx with rfl | hx
        · exact hshort
        · exact fun h => hshort (Nat.le_trans (hle x hx) h)
      have hnil : (s :: sizes).filter (· ≤ mainIxLen) = [] :=
        List.filter_eq_nil_iff.mpr fun x hx => by simpa using hlarge x hx
      rw [hnil]
      exact iff_of_true (fun c hc hle => absurd hle (hlarge c.1 (List.of_mem_zip hc).1)) hroom

/-- **When a table fits**: by the number of its codes and the room for the short ones. -/
theorem tableFits_iff (h16 : counts.length = 16) (hix : mainIxLen < 16) :
    TableFits counts mainIxLen ↔ (1 ≤ numCodes counts ∧ numCodes counts ≤ 256)
      ∧ HasRoom ((huffsize counts).filter (· ≤ mainIxLen)) := by
  have hiff := fits_iff 0 hix (huffsize_sorted counts) (headD_le h16)
    (by rw [Nat.zero_mul]; exact Nat.zero_le _)
  rw [Nat.zero_mul, Nat.zero_add] at hiff
  exact and_congr_right fun _ => hiff

/-! ## Good tables -/

theorem length_shortCodes (h16 : counts.length = 16) (hvals : huffval.length = numCodes counts)
    (hix : mainIxLen ≤ 16) :
    (shortCodes mainIxLen (codes counts huffval)).length = numCodes (counts.take mainIxLen) := by
  have hlen : (counts.take mainIxLen).length = mainIxLen :=
    List.length_take_of_le (h16.symm ▸ hix)
  have hmap : (shortCodes mainIxLen (codes counts huffval)).length
      = (((codes counts huffval).map (·.size)).takeWhile (· ≤ mainIxLen)).length := by
    rw [List.takeWhile_map, List.length_map]
    rfl
  have hback : (sizesFrom (1 + mainIxLen) (counts.drop mainIxLen)).takeWhile (· ≤ mainIxLen)
      = [] := by
    cases hsizes : sizesFrom (1 + mainIxLen) (counts.drop mainIxLen) with
    | nil => rfl
    | cons s sizes =>
      have hs := (mem_sizesFrom (hsizes ▸ List.mem_cons_self)).1
      exact List.takeWhile_cons_of_neg (by simp only [decide_eq_true_eq]; lia)
  rw [hmap, map_size hvals, huffsize_split (h16.symm ▸ hix), List.takeWhile_append_of_pos, hback,
    List.append_nil, length_sizesFrom]
  intro s hs
  have hlt := (mem_sizesFrom hs).2
  rw [hlen] at hlt
  exact decide_eq_true (by lia)

theorem fillIndex_lt {es : List (Elem Nat)} {i c : Nat} {indexP : Nat → Nat}
    (h : indexP c < 256) : fillIndex mainIxLen i es indexP c < 256 := by
  induction es generalizing i indexP with
  | nil => exact h
  | cons e es ih =>
    rw [fillIndex]
    refine ih ?_
    by_cases hc : Covers mainIxLen e c
    · rw [if_pos hc]
      exact Nat.mod_lt _ (by decide)
    · rw [if_neg hc]
      exact h

theorem shortCodes_append {front back : List (Elem Nat)} {e : Elem Nat}
    (hsorted : ((front ++ e :: back).map (·.size)).Pairwise (· ≤ ·)) (he : e.size ≤ mainIxLen) :
    shortCodes mainIxLen (front ++ e :: back) = front ++ e :: shortCodes mainIxLen back := by
  rw [List.map_append, List.map_cons] at hsorted
  have hcross := (List.pairwise_append.mp hsorted).2.2
  rw [shortCodes, List.takeWhile_append_of_pos]
  · exact congrArg (front ++ ·) (shortCodes_of_le he)
  · intro x hx
    have hle := hcross x.size (List.mem_map_of_mem hx) e.size List.mem_cons_self
    exact decide_eq_true (Nat.le_trans hle he)

theorem index_eq (h16 : counts.length = 16) (hvals : huffval.length = numCodes counts)
    (hix : mainIxLen ≤ 16) (hroom : HasRoom (huffsize counts))
    (hfew : numCodes (counts.take mainIxLen) ≤ 255) {i c : Nat} {e : Elem Nat}
    (hi : (codes counts huffval)[i]? = some e) (he : e.size ≤ mainIxLen)
    (hc : Covers mainIxLen e c) : (calcTable counts huffval mainIxLen).indexP c = i + 1 := by
  have hlen := length_shortCodes h16 hvals hix
  have hsorted : ((codes counts huffval).map (·.size)).Pairwise (· ≤ ·) := by
    rw [map_size hvals]
    exact huffsize_sorted counts
  have hpairs : (codes counts huffval).Pairwise
      fun x y => x.left 16 + x.width 16 ≤ y.left 16 := by
    rw [codes_eq_canonical h16 hroom]
    refine (canonical_le_left ?_ fun a _ => Nat.dvd_zero _).2
    refine List.pairwise_map.mp ?_
    rw [List.map_fst_zip (by rw [length_huffsize, List.length_map, hvals])]
    exact huffsize_sorted counts
  obtain ⟨hlt, rfl⟩ := List.getElem?_eq_some_iff.mp hi
  have hsplit : codes counts huffval = (codes counts huffval).take i
      ++ (codes counts huffval)[i] :: (codes counts huffval).drop (i + 1) := by
    rw [List.getElem_cons_drop, List.take_append_drop]
  have hfront : ((codes counts huffval).take i).length = i := List.length_take_of_le (by lia)
  have hindex : (calcTable counts huffval mainIxLen).indexP
      = fillIndex mainIxLen 0 (shortCodes mainIxLen (codes counts huffval)) fun _ => 0 := rfl
  rw [hindex]
  generalize (codes counts huffval)[i] = e at *
  generalize (codes counts huffval).take i = front at *
  generalize (codes counts huffval).drop (i + 1) = back at *
  rw [hsplit] at hsorted hpairs hlen ⊢
  rw [shortCodes_append hsorted he] at hlen ⊢
  rw [List.length_append, List.length_cons] at hlen
  rw [fillIndex_hit hc fun x hx hcx => ?_]
  · lia
  · -- no window begins with two codes
    have hwindow : c <<< (16 - mainIxLen) >>> (16 - mainIxLen) = c := Nat.shiftLeft_shiftRight _ _
    have hx' : x.size ≤ mainIxLen := of_decide_eq_true
      (List.mem_takeWhile_imp (p := fun y : Elem Nat => y.size ≤ mainIxLen) hx)
    rw [← hwindow, covers_iff he hix, Elem.prefixes_iff] at hc
    rw [← hwindow, covers_iff hx' hix, Elem.prefixes_iff] at hcx
    have hle := (List.pairwise_cons.mp (List.pairwise_append.mp hpairs).2.1).1 x
      (List.takeWhile_subset _ hx)
    lia

end Tables

/-- **A table that fits is good** just if it has room for all codes, and a byte for the place of the
last short one. -/
theorem good_iff {t : Table} (h16 : t.counts.length = 16)
    (hvals : t.values.length = numCodes t.counts) (hsome : 1 ≤ numCodes t.counts) :
    Good t (calcTable t.counts t.values t.mainIxLen)
      ↔ HasRoom (huffsize t.counts) ∧ numCodes (t.counts.take t.mainIxLen) ≤ 255 := by
  have hix : t.mainIxLen ≤ 16 := Nat.le_of_lt t.mainIxLen_lt
  constructor
  · intro h
    refine ⟨h.room, ?_⟩
    by_contra hmany
    have hlen := length_shortCodes h16 hvals hix
    -- the entries of the 256th short code cannot be larger than a byte
    have hlt : 255 < (shortCodes t.mainIxLen (codes t.counts t.values)).length := by lia
    obtain ⟨e, he⟩ : ∃ e, (shortCodes t.mainIxLen (codes t.counts t.values))[255]? = some e :=
      ⟨_, List.getElem?_eq_getElem hlt⟩
    have hcode : (codes t.counts t.values)[255]? = some e := by
      obtain ⟨rest, hrest⟩ := List.takeWhile_prefix
        (p := fun x : Elem Nat => x.size ≤ t.mainIxLen) (l := codes t.counts t.values)
      rw [← hrest, List.getElem?_append_left hlt]
      exact he
    have hshort : e.size ≤ t.mainIxLen := of_decide_eq_true (List.mem_takeWhile_imp
      (p := fun y : Elem Nat => y.size ≤ t.mainIxLen) (List.mem_of_getElem? he))
    have hpos := Nat.two_pow_pos (t.mainIxLen - e.size)
    have hentry := h.index 255 e hcode hshort _ ⟨Nat.le_refl _, by lia⟩
    have hbyte : (calcTable t.counts t.values t.mainIxLen).indexP
        (e.code <<< (t.mainIxLen - e.size)) < 256 := fillIndex_lt (by decide)
    lia
  · rintro ⟨hroom, hfew⟩
    exact ⟨hsome, hroom, fun i e hi he c hc => index_eq h16 hvals hix hroom hfew hi he hc⟩

/-! ## The segment -/

section Segment

variable {body : List UInt8} {t : Table}

theorem readBytes_eq {n : Nat} {next : List UInt8} (h : n ≤ next.length) :
    readBytes n next = .ok (next.take n, next.drop n) := by
  induction n generalizing next with
  | zero => rfl
  | succ n ih =>
    rcases next with _ | ⟨b, next⟩
    · exact absurd h (by simp)
    · rw [readBytes, ih (Nat.le_of_succ_le_succ h)]
      rfl

theorem tables_spec (h : t ∈ (tables body).1) :
    t.counts.length = 16 ∧ t.values.length = numCodes t.counts := by
  fun_induction tables body with
  | case1 body hend => cases h
  | case2 body counts hmore hcut => cases h
  | case3 body counts hmore hcut rest ih =>
    rcases List.mem_cons.mp h with rfl | h
    · constructor
      · exact List.length_take_of_le (by rw [List.length_drop]; lia)
      · exact List.length_take_of_le (by rw [List.length_drop]; lia)
    · exact ih h

theorem define_of_fits (h16 : t.counts.length = 16) (hvals : t.values.length = numCodes t.counts)
    (h : t.Fits) : pushAll 256 [] t.values = .ok t.values
      ∧ huffDefineTable t = .ok (calcTable t.counts t.values t.mainIxLen) := by
  have h256 := h.2.1.2
  constructor
  · exact pushAll_eq (by rw [List.length_nil]; lia)
  · rw [huffDefineTable, if_neg (Nat.not_le.mpr h.1)]
    refine (calcTableC_eq h16 hvals h256).trans (if_pos ?_)
    exact (tableFits_iff h16 t.mainIxLen_lt).mpr h.2

theorem define_of_not_fits (h16 : t.counts.length = 16)
    (hvals : t.values.length = numCodes t.counts) (h : ¬ t.Fits) :
    pushAll 256 [] t.values = .error .outside
      ∨ pushAll 256 [] t.values = .ok t.values ∧ huffDefineTable t = .error .outside := by
  by_cases h256 : numCodes t.counts ≤ 256
  · refine .inr ⟨pushAll_eq (by rw [List.length_nil]; lia), ?_⟩
    rw [huffDefineTable]
    by_cases hid : 4 ≤ t.id
    · rw [if_pos hid]
      rfl
    · rw [if_neg hid]
      refine (calcTableC_eq h16 hvals h256).trans (if_neg fun htable => ?_)
      exact h ⟨Nat.lt_of_not_le hid, (tableFits_iff h16 t.mainIxLen_lt).mp htable⟩
  · exact .inl (pushAll_outside (Nat.zero_le _) (by rw [List.length_nil]; lia))

/-- **The reading of a segment**, by its tables. -/
theorem marParseDht_eq (body : List UInt8) :
    marParseDht body = if ∀ t ∈ (tables body).1, t.Fits then
        if (tables body).2 then
          .ok ((tables body).1.map fun t => (t, calcTable t.counts t.values t.mainIxLen))
        else .error .syntaxError
      else .error .outside := by
  rw [marParseDht]
  fun_induction tables body with
  | case1 body hend =>
    rw [dhtLoop, if_neg (by lia)]
    rcases body with _ | ⟨b, body⟩
    · simp only [List.length_nil, ne_eq, not_true_eq_false, if_false]
      rfl
    · simp
  | case2 body counts hmore hcut =>
    rw [dhtLoop, if_pos (by lia), readBytes_eq (by lia)]
    show (readBytes 16 (body.drop 1) >>= _) = _
    rw [readBytes_eq (by rw [List.length_drop]; lia)]
    exact (if_pos hcut).trans (by simp)
  | case3 body counts hmore hcut rest ih =>
    have hcounts : counts.length = 16 := List.length_take_of_le (by rw [List.length_drop]; lia)
    have hvalues : ((body.drop 17).take (numCodes counts)).length = numCodes counts :=
      List.length_take_of_le (by rw [List.length_drop]; lia)
    have hhead : (body.take 1).headD 0 = body.headD 0 := by
      cases body with
      | nil => rfl
      | cons b body => rfl
    rw [dhtLoop, if_pos (by lia), readBytes_eq (by lia)]
    show (readBytes 16 (body.drop 1) >>= _) = _
    rw [readBytes_eq (by rw [List.length_drop]; lia)]
    refine (if_neg hcut).trans ?_
    rw [List.drop_drop, readBytes_eq (by rw [List.length_drop]; lia)]
    show (pushAll 256 [] ((body.drop 17).take (numCodes counts)) >>= _) = _
    by_cases hfits : Table.Fits ⟨body.headD 0, counts, (body.drop 17).take (numCodes counts)⟩
    · obtain ⟨hpush, htable⟩ := define_of_fits hcounts hvalues hfits
      have htail : (body.drop (17 + numCodes counts)).length
          = body.length - 17 - numCodes counts := by
        rw [List.length_drop, Nat.sub_sub]
      rw [hpush]
      show (huffDefineTable ⟨(body.take 1).headD 0, counts, _⟩ >>= _) = _
      rw [hhead, htable]
      show (dhtLoop (body.length - 17 - numCodes counts) _ >>= _) = _
      rw [List.drop_drop, ← htail, ih]
      by_cases hrest : ∀ t ∈ rest.1, t.Fits
      · rw [if_pos hrest, if_pos (List.forall_mem_cons.mpr ⟨hfits, hrest⟩)]
        by_cases hend : rest.2 = true
        · rw [if_pos hend, if_pos hend]
          rfl
        · rw [if_neg hend, if_neg hend]
          rfl
      · rw [if_neg hrest, if_neg fun h => hrest (List.forall_mem_cons.mp h).2]
        rfl
    · rw [if_neg fun h => hfits (List.forall_mem_cons.mp h).1]
      rcases define_of_not_fits hcounts hvalues hfits with hpush | ⟨hpush, htable⟩
      · rw [hpush]
        rfl
      · rw [hpush]
        show (huffDefineTable ⟨(body.take 1).headD 0, counts, _⟩ >>= _) = _
        rw [hhead, htable]
        rfl

/-- **A segment is read safely** just if it is fine. -/
theorem marParseDht_safe_iff (body : List UInt8) : Safe (marParseDht body) ↔ Fine body := by
  rw [marParseDht_eq, Fine]
  by_cases hfits : ∀ t ∈ (tables body).1, t.Fits
  · -- no array is left: the tables count only if the segment is not turned down
    rw [if_pos hfits, and_iff_right hfits]
    by_cases hend : (tables body).2 = true
    · rw [if_pos hend, forall_prop_of_true hend]
      show (∀ d ∈ (tables body).1.map fun t => (t, calcTable t.counts t.values t.mainIxLen),
        Good d.1 d.2) ↔ _
      rw [List.forall_mem_map]
      refine forall₂_congr fun t ht => ?_
      obtain ⟨h16, hvals⟩ := tables_spec ht
      exact good_iff h16 hvals (hfits t ht).2.1.1
    · rw [if_neg hend]
      exact iff_of_true trivial fun h => absurd h hend
  · rw [if_neg hfits]
    exact iff_of_false id fun h => hfits h.1

/-- A table 4, with one code: it is written behind the tables that there are. -/
theorem fourth_table_outside : ¬ ∀ body, Safe (marParseDht body) := by
  intro h
  have hsafe := h [4, 1, 0, 0, 0, 0, 0, 0, 0, 0, 0, 0, 0, 0, 0, 0, 0, 7]
  have hrun : marParseDht [4, 1, 0, 0, 0, 0, 0, 0, 0, 0, 0, 0, 0, 0, 0, 0, 0, 7]
      = .error .outside := by
    rw [marParseDht, dhtLoop]
    rfl
  rw [hrun] at hsafe
  exact hsafe

end Segment

end Hplip.Ip.JpegDht
