import Hplip.Hpmud.DeviceId
import Hplip.Lib.Strtol

/-!
# Object ids of PML

`SnmpToPml` turns the dotted id of SNMP into the bytes of a PML id: the prefix of a known mib
becomes no byte, 2 or 3, and each number behind it becomes one byte.
-/

namespace Hplip.Hpmud

open CInt CString Strtol

/-! ## The conversion -/

/-- An `int` made of a `long`. -/
def toInt (n : Int) : Int := ofDword (toDword n)

/-- `(unsigned char)val` -/
def lowByte (n : Int) : UInt8 := UInt8.ofNat (n % 256).toNat

/-- The loop of `PmlOidToHex` with `left` bytes to go: `val` and `tail` are those of the last
`strtol`. -/
def hexLoop (off i : Nat) :
    Nat → Int × List UInt8 → List UInt8 → Except Fault (Nat × List UInt8)
  | 0, _, oid => .ok (i, oid)
  | left + 1, (val, tail), oid =>
    if 128 < toInt val then .ok (i, oid)
    else do
      let oid ← store oid (off + i) (lowByte val)
      match tail with
      | [] => return (i + 1, oid)
      | _ :: t => hexLoop off (i + 1) left (strtol t) oid

/-- `PmlOidToHex(szoid, &oid[off], oidSize)` -/
def pmlOidToHex (szoid oid : List UInt8) (off oidSize : Nat) :
    Except Fault (Nat × List UInt8) :=
  if szoid = [] then .ok (0, oid) else hexLoop off 0 oidSize (strtol szoid) oid

def hpPmlMibPrefix : List UInt8 := "1.3.6.1.4.1.11.2.3.9.4.2".toList.map ch

def standardPrinterMibPrefix : List UInt8 := "1.3.6.1.2.1.43".toList.map ch

def hostResourceMibPrefix : List UInt8 := "1.3.6.1.2.1.25".toList.map ch

/-- `&snmp_oid[sizeof(prefix)]`: one character behind the prefix is skipped. -/
def suffix (pre s : List UInt8) : Except Fault (List UInt8) :=
  match s.drop pre.length with
  | [] => .error .load
  | _ :: t => .ok t

def replacePrefix (b : UInt8) (pre s oid : List UInt8) : Except Fault (Int × List UInt8) := do
  let oid ← store oid 0 b
  let t ← suffix pre s
  let (n, oid) ← pmlOidToHex t oid 1 oid.length
  return (1 + (n : Int), oid)

/-- `SnmpToPml`: the length it returns, and the id. -/
def snmpToPml (s oid : List UInt8) : Except Fault (Int × List UInt8) :=
  if hpPmlMibPrefix.isPrefixOf s then do
    let t ← suffix hpPmlMibPrefix s
    let (n, oid) ← pmlOidToHex t oid 0 oid.length
    return ((n : Int) - 1, oid)
  else if standardPrinterMibPrefix.isPrefixOf s then
    replacePrefix 2 standardPrinterMibPrefix s oid
  else if hostResourceMibPrefix.isPrefixOf s then
    replacePrefix 3 hostResourceMibPrefix s oid
  else .ok (0, oid)

/-! ## The bytes of the numbers -/

/-- The bytes of the numbers that are read one after the other, at most so many, up to the
first that is too large. -/
def codesFrom : Nat → Int × List UInt8 → List UInt8
  | 0, _ => []
  | _ + 1, (val, []) => if 128 < toInt val then [] else [lowByte val]
  | n + 1, (val, _ :: t) =>
    if 128 < toInt val then [] else lowByte val :: codesFrom n (strtol t)

def codes (n : Nat) (t : List UInt8) : List UInt8 := if t = [] then [] else codesFrom n (strtol t)

theorem codesFrom_length_le (n : Nat) (r : Int × List UInt8) : (codesFrom n r).length ≤ n := by
  induction n generalizing r with
  | zero => exact Nat.le_refl 0
  | succ n ih =>
    obtain ⟨val, _ | ⟨c, t⟩⟩ := r
    · rw [codesFrom]
      split
      · exact Nat.zero_le _
      · exact Nat.succ_le_succ (Nat.zero_le n)
    · rw [codesFrom]
      split
      · exact Nat.zero_le _
      · exact Nat.succ_le_succ (ih (strtol t))

theorem codes_length_le (n : Nat) (t : List UInt8) : (codes n t).length ≤ n := by
  rw [codes]
  split
  · exact Nat.zero_le _
  · exact codesFrom_length_le n _

def placed (buf : List UInt8) (off : Nat) (l : List UInt8) : List UInt8 :=
  buf.take off ++ l ++ buf.drop (off + l.length)

theorem placed_nil (buf : List UInt8) (off : Nat) : placed buf off [] = buf := by
  rw [placed, List.append_nil, List.length_nil, Nat.add_zero, List.take_append_drop]

theorem placed_set {buf : List UInt8} {off : Nat} (c : UInt8) (l : List UInt8)
    (h : off < buf.length) : placed (buf.set off c) (off + 1) l = placed buf off (c :: l) := by
  have htake : (buf.set off c).take (off + 1) = buf.take off ++ [c] := by
    rw [List.take_add_one, List.take_set_of_le (Nat.le_refl off), List.getElem?_set_self h]
    rfl
  have hdrop : (buf.set off c).drop (off + 1 + l.length) = buf.drop (off + (c :: l).length) := by
    rw [List.drop_set_of_lt (by omega), List.length_cons]
    congr 1
    omega
  rw [placed, placed, htake, hdrop]
  simp only [List.append_assoc, List.cons_append, List.nil_append]

theorem hexLoop_eq {off i left : Nat} {r : Int × List UInt8} {oid : List UInt8}
    (hi : off + i ≤ oid.length) : hexLoop off i left r oid =
      if off + i + (codesFrom left r).length ≤ oid.length then
        .ok (i + (codesFrom left r).length, placed oid (off + i) (codesFrom left r))
      else .error .store := by
  induction left generalizing i r oid with
  | zero =>
    rw [hexLoop, codesFrom, if_pos (by simpa using hi), placed_nil]
    rfl
  | succ left ih =>
    obtain ⟨val, tail⟩ := r
    rw [hexLoop]
    -- the loop ends at a number above 128, at the end of the string or of the memory
    by_cases hval : 128 < toInt val
    · have hnone : codesFrom (left + 1) (val, tail) = [] := by
        cases tail with
        | nil => rw [codesFrom, if_pos hval]
        | cons c t => rw [codesFrom, if_pos hval]
      rw [if_pos hval, hnone, if_pos (by simpa using hi), placed_nil]
      rfl
    · rw [if_neg hval]
      by_cases hroom : off + i < oid.length
      · rw [store_eq _ hroom]
        cases tail with
        | nil =>
          rw [codesFrom, if_neg hval, if_pos (by rw [List.length_singleton]; lia), ← placed_set _ _ hroom,
            placed_nil]
          rfl
        | cons c t =>
          have hnext := ih (r := strtol t)
            (show off + (i + 1) ≤ (oid.set (off + i) (lowByte val)).length by
              rw [List.length_set]
              lia)
          rw [List.length_set, ← Nat.add_assoc, placed_set _ _ hroom] at hnext
          refine hnext.trans ?_
          rw [codesFrom, if_neg hval, List.length_cons]
          simp only [Nat.add_assoc, Nat.add_comm 1]
      · have hsome : 0 < (codesFrom (left + 1) (val, tail)).length := by
          cases tail with
          | nil =>
            rw [codesFrom, if_neg hval]
            exact Nat.zero_lt_one
          | cons c t =>
            rw [codesFrom, if_neg hval]
            exact Nat.zero_lt_succ _
        rw [store_error _ (by lia), if_neg (by lia)]
        rfl

theorem pmlOidToHex_eq (szoid oid : List UInt8) (oidSize : Nat) {n : Nat} (hn : n ≤ oid.length) :
    pmlOidToHex szoid oid n oidSize =
      if n + (codes oidSize szoid).length ≤ oid.length then
        .ok ((codes oidSize szoid).length, placed oid n (codes oidSize szoid))
      else .error .store := by
  rw [pmlOidToHex, codes]
  by_cases h : szoid = []
  · rw [if_pos h, if_pos h, List.length_nil, Nat.add_zero, if_pos hn, placed_nil]
  · rw [if_neg h, if_neg h, hexLoop_eq hn, Nat.add_zero, Nat.zero_add]

/-! ## What the conversion has to do -/

inductive Mib where
  | hpPml
  | standardPrinter
  | hostResource
  deriving DecidableEq

def Mib.pre : Mib → List UInt8
  | .hpPml => hpPmlMibPrefix
  | .standardPrinter => standardPrinterMibPrefix
  | .hostResource => hostResourceMibPrefix

def Mib.code : Mib → List UInt8
  | .hpPml => []
  | .standardPrinter => [2]
  | .hostResource => [3]

/-- The numbers of an id that PML wants: its own mib has no 0 instance. -/
def Mib.numbers : Mib → List Nat → List Nat
  | .hpPml, vs => if vs.getLast? = some 0 then vs.dropLast else vs
  | .standardPrinter, vs => vs
  | .hostResource, vs => vs

def IsComponent (d : List UInt8) : Prop :=
  d ≠ [] ∧ (∀ c ∈ d, isDigit c = true) ∧ value d ≤ 127

def dotted (ds : List (List UInt8)) : List UInt8 := ds.flatMap fun d => ch '.' :: d

def Mib.pml (m : Mib) (ds : List (List UInt8)) : List UInt8 :=
  m.code ++ (m.numbers (ds.map value)).map Nat.toUInt8

/-- The conversion ends without a store outside and with a length that the id has room for,
and makes the PML id of a dotted id. -/
def ConvertsWell (s oid : List UInt8) : Prop :=
  ∃ len out, snmpToPml s oid = .ok (len, out) ∧ 0 ≤ len ∧ len ≤ oid.length
    ∧ ∀ (m : Mib) (ds : List (List UInt8)), (∀ d ∈ ds, IsComponent d) → s = m.pre ++ dotted ds →
        len = (m.pml ds).length ∧ m.pml ds <+: out

/-- Behind a known prefix stands something whose numbers fit in `n` bytes with the byte of the
prefix. An id of the PML mib has a number, and if it is dotted it ends in 0. -/
def Convertible (s : List UInt8) (n : Nat) : Prop :=
  ∀ m : Mib, m.pre <+: s → ∃ c t, s = m.pre ++ c :: t ∧
    match m with
    | .hpPml => 0 < (codes n t).length
        ∧ ∀ ds, (∀ d ∈ ds, IsComponent d) → s = hpPmlMibPrefix ++ dotted ds →
            ds.length ≤ n ∧ (ds.map value).getLast? = some 0
    | _ => (codes n t).length < n

theorem pre_unique {m₁ m₂ : Mib} {s : List UInt8} (h₁ : m₁.pre <+: s) (h₂ : m₂.pre <+: s) :
    m₁ = m₂ := by
  have hpairs : ∀ a b : Mib, a.pre <+: b.pre → a = b := by
    intro a b
    cases a <;> cases b <;> decide
  rcases Nat.le_total m₁.pre.length m₂.pre.length with hle | hle
  · exact hpairs _ _ (List.prefix_of_prefix_length_le h₁ h₂ hle)
  · exact (hpairs _ _ (List.prefix_of_prefix_length_le h₂ h₁ hle)).symm

theorem suffix_pre (pre x : List UInt8) :
    suffix pre (pre ++ x) = match x with
      | [] => .error .load
      | _ :: t => .ok t := by
  rw [suffix, List.drop_left]

section Prefix

variable {s oid t : List UInt8} {c b : UInt8}

theorem snmpToPml_hpPml (h : hpPmlMibPrefix <+: s) :
    snmpToPml s oid = (suffix hpPmlMibPrefix s >>= fun t =>
      pmlOidToHex t oid 0 oid.length >>= fun r => pure ((r.1 : Int) - 1, r.2)) := by
  rw [snmpToPml, if_pos (List.isPrefixOf_iff_prefix.mpr h)]

theorem snmpToPml_coded {m : Mib} (hb : m.code = [b]) (h : m.pre <+: s) :
    snmpToPml s oid = replacePrefix b m.pre s oid := by
  have hno (m' : Mib) (hm : m' ≠ m) : ¬ m'.pre.isPrefixOf s = true := fun hp =>
    hm (pre_unique (List.isPrefixOf_iff_prefix.mp hp) h)
  cases m with
  | hpPml => exact nomatch hb
  | standardPrinter =>
    cases hb
    have hnot : ¬ hpPmlMibPrefix.isPrefixOf s = true := hno .hpPml (by decide)
    have hyes : standardPrinterMibPrefix.isPrefixOf s = true := List.isPrefixOf_iff_prefix.mpr h
    rw [snmpToPml, if_neg hnot, if_pos hyes]
    rfl
  | hostResource =>
    cases hb
    have hnot : ¬ hpPmlMibPrefix.isPrefixOf s = true := hno .hpPml (by decide)
    have hnot' : ¬ standardPrinterMibPrefix.isPrefixOf s = true :=
      hno .standardPrinter (by decide)
    have hyes : hostResourceMibPrefix.isPrefixOf s = true := List.isPrefixOf_iff_prefix.mpr h
    rw [snmpToPml, if_neg hnot, if_neg hnot', if_pos hyes]
    rfl

theorem snmpToPml_other (h : ∀ m : Mib, ¬ m.pre <+: s) : snmpToPml s oid = .ok (0, oid) := by
  have hno (m : Mib) : ¬ m.pre.isPrefixOf s = true := fun hp =>
    h m (List.isPrefixOf_iff_prefix.mp hp)
  have hnot : ¬ hpPmlMibPrefix.isPrefixOf s = true := hno .hpPml
  have hnot' : ¬ standardPrinterMibPrefix.isPrefixOf s = true := hno .standardPrinter
  have hnot'' : ¬ hostResourceMibPrefix.isPrefixOf s = true := hno .hostResource
  rw [snmpToPml, if_neg hnot, if_neg hnot', if_neg hnot'']

theorem snmpToPml_pre (m : Mib) : ¬ ∃ r, snmpToPml m.pre oid = .ok r := by
  have hsuffix : suffix m.pre m.pre = .error .load := by
    simpa using suffix_pre m.pre []
  have hcoded : ∀ b, m.code = [b] → ¬ ∃ r, snmpToPml m.pre oid = .ok r := by
    rintro b hb ⟨r, hr⟩
    rw [snmpToPml_coded hb List.prefix_rfl, replacePrefix, hsuffix] at hr
    cases hstore : store oid 0 b with
    | ok oid' =>
      rw [hstore] at hr
      cases hr
    | error e =>
      rw [hstore] at hr
      cases hr
  cases m with
  | hpPml =>
    rintro ⟨r, hr⟩
    have hsuffix' : suffix hpPmlMibPrefix hpPmlMibPrefix = .error .load := hsuffix
    change snmpToPml hpPmlMibPrefix oid = _ at hr
    rw [snmpToPml_hpPml List.prefix_rfl, hsuffix'] at hr
    cases hr
  | standardPrinter => exact hcoded 2 rfl
  | hostResource => exact hcoded 3 rfl

theorem snmpToPml_hpPml_cons : snmpToPml (hpPmlMibPrefix ++ c :: t) oid
    = .ok (((codes oid.length t).length : Int) - 1, placed oid 0 (codes oid.length t)) := by
  have hconv := pmlOidToHex_eq t oid oid.length (Nat.zero_le _)
  rw [Nat.zero_add, if_pos (codes_length_le _ _)] at hconv
  rw [snmpToPml_hpPml (List.prefix_append _ _), suffix_pre]
  change (pmlOidToHex t oid 0 oid.length >>= fun r => pure ((r.1 : Int) - 1, r.2)) = _
  rw [hconv]
  rfl

theorem replacePrefix_eq (pre : List UInt8) : replacePrefix b pre (pre ++ c :: t) oid =
    if (codes oid.length t).length < oid.length then
      .ok (1 + ((codes oid.length t).length : Int), placed oid 0 (b :: codes oid.length t))
    else .error .store := by
  rw [replacePrefix, suffix_pre]
  by_cases hne : oid = []
  · subst hne
    rfl
  · have hpos := List.length_pos_of_ne_nil hne
    have hconv := pmlOidToHex_eq t (oid.set 0 b) oid.length (n := 1)
      (by rw [List.length_set]; exact hpos)
    rw [List.length_set, placed_set b _ hpos] at hconv
    rw [store_eq b hpos]
    change (pmlOidToHex t (oid.set 0 b) 1 (oid.set 0 b).length >>= fun r =>
      pure (1 + (r.1 : Int), r.2)) = _
    rw [List.length_set, hconv]
    by_cases h : (codes oid.length t).length < oid.length
    · rw [if_pos h, if_pos (by omega)]
      rfl
    · rw [if_neg h, if_neg (by omega)]
      rfl

end Prefix

/-! ## Dotted ids -/

theorem dotted_head (ds : List (List UInt8)) : ∀ c ∈ (dotted ds).head?, isDigit c = false := by
  cases ds with
  | nil => exact nofun
  | cons d ds =>
    intro c hc
    cases hc
    decide

theorem strtol_component {d : List UInt8} (hd : IsComponent d) (ds : List (List UInt8)) :
    strtol (d ++ dotted ds) = ((value d : Int), dotted ds) := by
  rw [strtol_digits hd.1 hd.2.1 (dotted_head ds), clamp_of_le (by have := hd.2.2; omega)]

theorem toInt_component {v : Nat} (h : v ≤ 127) : toInt v = v ∧ lowByte v = v.toUInt8 := by
  revert h
  revert v
  decide

theorem codesFrom_dotted {d : List UInt8} {ds : List (List UInt8)} (hd : IsComponent d)
    (hds : ∀ e ∈ ds, IsComponent e) (n : Nat) :
    codesFrom n (strtol (d ++ dotted ds))
      = (((d :: ds).map value).map Nat.toUInt8).take n := by
  induction ds generalizing d n with
  | nil =>
    cases n with
    | zero => rfl
    | succ n =>
      obtain ⟨hval, hbyte⟩ := toInt_component hd.2.2
      have hle := hd.2.2
      rw [strtol_component hd]
      change codesFrom (n + 1) (_, []) = _
      rw [codesFrom, hval, hbyte, if_neg (by omega)]
      simp
  | cons e ds ih =>
    cases n with
    | zero => rfl
    | succ n =>
      obtain ⟨hval, hbyte⟩ := toInt_component hd.2.2
      have hle := hd.2.2
      rw [strtol_component hd]
      change codesFrom (n + 1) (_, ch '.' :: (e ++ dotted ds)) = _
      rw [codesFrom, hval, hbyte, if_neg (by omega), ih (hds e List.mem_cons_self)
        (fun e' he' => hds e' (List.mem_cons_of_mem _ he')) n]
      simp

theorem codes_dotted {d : List UInt8} {ds : List (List UInt8)} (h : ∀ e ∈ d :: ds, IsComponent e)
    (n : Nat) : codes n (d ++ dotted ds) = (((d :: ds).map value).map Nat.toUInt8).take n := by
  have hd := h d List.mem_cons_self
  rw [codes, if_neg (fun hnil => hd.1 (List.append_eq_nil_iff.mp hnil).1)]
  exact codesFrom_dotted hd (fun e he => h e (List.mem_cons_of_mem _ he)) n

theorem behind_dotted {pre t : List UInt8} {c : UInt8} {ds : List (List UInt8)}
    (h : pre ++ c :: t = pre ++ dotted ds) :
    ∃ d es, ds = d :: es ∧ t = d ++ dotted es := by
  have htail := List.append_cancel_left h
  cases ds with
  | nil => cases htail
  | cons d es =>
    refine ⟨d, es, rfl, ?_⟩
    exact (List.cons.inj htail).2

theorem placed_zero_prefix {buf l m : List UInt8} (h : m <+: l) : m <+: placed buf 0 l := by
  rw [placed, List.take_zero, List.nil_append]
  exact h.trans (List.prefix_append _ _)

section Ids

variable {oid t : List UInt8} {c b : UInt8}

theorem convertsWell_hpPml : ConvertsWell (hpPmlMibPrefix ++ c :: t) oid ↔
    0 < (codes oid.length t).length
      ∧ ∀ ds, (∀ d ∈ ds, IsComponent d) → hpPmlMibPrefix ++ c :: t = hpPmlMibPrefix ++ dotted ds →
          ds.length ≤ oid.length ∧ (ds.map value).getLast? = some 0 := by
  have hle := codes_length_le oid.length t
  constructor
  · rintro ⟨len, out, hrun, hlow, -, hdotted⟩
    rw [snmpToPml_hpPml_cons] at hrun
    cases hrun
    refine ⟨by lia, fun ds hds heq => ?_⟩
    obtain ⟨hlen, -⟩ := hdotted .hpPml ds hds heq
    obtain ⟨d, es, rfl, rfl⟩ := behind_dotted heq
    rw [codes_dotted hds, List.length_take, List.length_map, List.length_map] at hlen hle
    simp only [Mib.pml, Mib.code, Mib.numbers, List.nil_append, List.length_map] at hlen
    -- the byte of the last number is dropped, whether it is a 0 or not
    by_cases hlast : ((d :: es).map value).getLast? = some 0
    · rw [if_pos hlast, List.length_dropLast, List.length_map] at hlen
      refine ⟨?_, hlast⟩
      rw [List.length_cons] at hlen ⊢
      lia
    · rw [if_neg hlast, List.length_map, List.length_cons] at hlen
      lia
  · rintro ⟨hpos, hdotted⟩
    refine ⟨_, _, snmpToPml_hpPml_cons, by lia, by lia, fun m ds hds heq => ?_⟩
    have hm : m = .hpPml := pre_unique ⟨_, heq.symm⟩ ⟨_, rfl⟩
    subst hm
    obtain ⟨hroom, hlast⟩ := hdotted ds hds heq
    obtain ⟨d, es, rfl, rfl⟩ := behind_dotted heq
    have hall : codes oid.length (d ++ dotted es)
        = ((d :: es).map value).map Nat.toUInt8 := by
      rw [codes_dotted hds, List.take_of_length_le (by simpa using hroom)]
    have hpml : Mib.hpPml.pml (d :: es) = (((d :: es).map value).dropLast).map Nat.toUInt8 := by
      rw [Mib.pml, Mib.code, Mib.numbers, if_pos hlast, List.nil_append]
    rw [hall, hpml]
    refine ⟨?_, placed_zero_prefix ((List.dropLast_prefix _).map _)⟩
    simp only [List.length_map, List.length_dropLast, List.length_cons]
    lia

theorem convertsWell_coded {m : Mib} (hb : m.code = [b]) :
    ConvertsWell (m.pre ++ c :: t) oid ↔ (codes oid.length t).length < oid.length := by
  have hrun : snmpToPml (m.pre ++ c :: t) oid = _ :=
    (snmpToPml_coded hb (List.prefix_append _ _)).trans (replacePrefix_eq _)
  constructor
  · rintro ⟨len, out, hok, -⟩
    by_contra hlong
    rw [hrun, if_neg hlong] at hok
    cases hok
  · intro hroom
    rw [if_pos hroom] at hrun
    refine ⟨_, _, hrun, by lia, by lia, fun m' ds hds heq => ?_⟩
    have hm : m' = m := pre_unique ⟨_, heq.symm⟩ (List.prefix_append _ _)
    subst hm
    obtain ⟨d, es, rfl, rfl⟩ := behind_dotted heq
    have hall : codes oid.length (d ++ dotted es)
        = ((d :: es).map value).map Nat.toUInt8 := by
      rw [codes_dotted hds] at hroom ⊢
      refine List.take_of_length_le ?_
      rw [List.length_take] at hroom
      lia
    have hpml : m'.pml (d :: es) = b :: ((d :: es).map value).map Nat.toUInt8 := by
      cases m' with
      | hpPml => exact nomatch hb
      | standardPrinter =>
        cases hb
        rfl
      | hostResource =>
        cases hb
        rfl
    rw [hall, hpml]
    refine ⟨?_, placed_zero_prefix List.prefix_rfl⟩
    rw [List.length_cons]
    lia

end Ids

theorem known_iff {m : Mib} {c : UInt8} {t : List UInt8} {P : Mib → UInt8 → List UInt8 → Prop} :
    (∀ m' : Mib, m'.pre <+: m.pre ++ c :: t →
      ∃ c' t', m.pre ++ c :: t = m'.pre ++ c' :: t' ∧ P m' c' t') ↔ P m c t := by
  constructor
  · intro h
    obtain ⟨c', t', heq, hP⟩ := h m (List.prefix_append _ _)
    cases List.append_cancel_left heq
    exact hP
  · intro hP m' hm'
    obtain rfl : m' = m := pre_unique hm' (List.prefix_append _ _)
    exact ⟨c, t, rfl, hP⟩

/-- The conversion of a string into an id of any size. -/
theorem convertsWell_iff (s oid : List UInt8) : ConvertsWell s oid ↔ Convertible s oid.length := by
  by_cases hknown : ∃ m : Mib, m.pre <+: s
  · obtain ⟨m, x, rfl⟩ := hknown
    cases x with
    | nil =>
      rw [List.append_nil]
      refine iff_of_false ?_ ?_
      · rintro ⟨len, out, hrun, -⟩
        exact snmpToPml_pre m ⟨_, hrun⟩
      · intro h
        obtain ⟨c, t, heq, -⟩ := h m List.prefix_rfl
        simp at heq
    | cons c t =>
      rw [Convertible, known_iff]
      cases m with
      | hpPml => exact convertsWell_hpPml
      | standardPrinter => exact convertsWell_coded (m := .standardPrinter) rfl
      | hostResource => exact convertsWell_coded (m := .hostResource) rfl
  · -- a string without a known prefix is refused, and the id is not touched
    push Not at hknown
    refine iff_of_true ⟨0, oid, snmpToPml_other hknown, by omega, by omega, ?_⟩ fun m hm =>
      absurd hm (hknown m)
    rintro m ds - rfl
    exact absurd (List.prefix_append _ _) (hknown m)

/-- 256 components below the printer mib, in an id of 256 bytes: the last one goes behind it. -/
theorem long_oid_overflows : ¬ ConvertsWell
    (standardPrinterMibPrefix ++ dotted (List.replicate 256 [ch '1'])) (List.replicate 256 0) := by
  have hcomponents : ∀ d ∈ [ch '1'] :: List.replicate 255 [ch '1'], IsComponent d := by
    intro d hd
    obtain rfl : d = [ch '1'] := by
      rcases List.mem_cons.mp hd with hd | hd
      · exact hd
      · exact List.eq_of_mem_replicate hd
    exact ⟨nofun, List.forall_mem_singleton.mpr rfl, by decide⟩
  have hcodes : (codes 256 ([ch '1'] ++ dotted (List.replicate 255 [ch '1']))).length = 256 := by
    rw [codes_dotted hcomponents, List.length_take, List.length_map, List.length_map,
      List.length_cons, List.length_replicate]
    decide
  have hroom : ¬ ConvertsWell (Mib.standardPrinter.pre ++ ch '.' ::
      ([ch '1'] ++ dotted (List.replicate 255 [ch '1']))) (List.replicate 256 0) ↔ _ :=
    (convertsWell_coded (b := 2) rfl).not
  refine hroom.mpr ?_
  rw [List.length_replicate, hcodes]
  decide

end Hplip.Hpmud
