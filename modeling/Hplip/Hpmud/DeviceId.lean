import Hplip.Lib.CString

/-!
# Model, serial number and data link out of device ids and URIs

The six functions that copy a field of an IEEE 1284 device id or of a device URI into a
caller's buffer. A string argument is the list of its characters; every load goes through
the cells of the string, its NUL included, and every store through the cells of the buffer.
-/

namespace Hplip.Hpmud

open CString

/-- What a function that fills a buffer comes to: the returned length and the buffer. -/
abbrev Filled := Except Fault (Nat × List UInt8)

def ch (c : Char) : UInt8 := c.toNat.toUInt8

/-! ## The functions -/

/-- `for (i=0; pMd[i] == ' ' && i < bufSize; i++);` -/
def eatBlanks : Nat → List UInt8 → Nat
  | n + 1, c :: p => if c = ch ' ' then eatBlanks n p + 1 else 0
  | _, _ => 0

/-- The copying loop of `generalize_model`, `p` the cells from `pMd[i]` on. -/
def modelLoop (bufSize : Nat) :
    List UInt8 → Nat → Bool → List UInt8 → Except Fault (Nat × List UInt8)
  | [], _, _, _ => .error .load
  | c :: p, j, dd, buf =>
    if c ≠ 0 ∧ c ≠ ch ';' ∧ j < bufSize then
      if c = ch ' ' ∨ c = ch '/' then
        if dd = false then
          match store buf j (ch '_') with
          | .ok buf => modelLoop bufSize p (j + 1) true buf
          | .error e => .error e
        else modelLoop bufSize p j dd buf
      else
        match store buf j c with
        | .ok buf => modelLoop bufSize p (j + 1) false buf
        | .error e => .error e
    else .ok (j, buf)

/-- `for (j--; buf[j] == c && j > 0; j--); buf[++j] = 0; return j;` -/
def trimTerminate (c : UInt8) : Nat × List UInt8 → Filled
  | (0, _) => .error .load
  | (j + 1, buf) =>
    match trimBack c buf j with
    | .ok j => terminate (j + 1, buf)
    | .error e => .error e

def generalizeModel (sz buf : List UInt8) (bufSize : Nat) : Filled :=
  if sz = [] then .ok (0, buf)
  else
    let i := eatBlanks bufSize (mem sz)
    match modelLoop bufSize ((mem sz).drop i) 0 false buf with
    | .ok r => trimTerminate (ch '_') r
    | .error e => .error e

/-- The copying loop of `generalize_serial`: the bound is on the index of the source. -/
def serialLoop (bufSize : Nat) :
    List UInt8 → Nat → Nat → List UInt8 → Except Fault (Nat × List UInt8)
  | [], _, _, _ => .error .load
  | c :: p, i, j, buf =>
    if c ≠ 0 ∧ i < bufSize then
      match store buf j c with
      | .ok buf => serialLoop bufSize p (i + 1) (j + 1) buf
      | .error e => .error e
    else .ok (i, buf)

/-- The trimming goes on with the index of the source, `i`. -/
def generalizeSerial (sz buf : List UInt8) (bufSize : Nat) : Filled :=
  if sz = [] then .ok (0, buf)
  else
    let i := eatBlanks bufSize (mem sz)
    match serialLoop bufSize ((mem sz).drop i) i 0 buf with
    | .ok r => trimTerminate (ch ' ') r
    | .error e => .error e

/-- `tolower` in the C locale. -/
def tolower (c : UInt8) : UInt8 := if ch 'A' ≤ c ∧ c ≤ ch 'Z' then c + 32 else c

/-- `strstr`, and the pointer moved behind the match. -/
def strstr (pat : List Char) (s : List UInt8) : Option (List UInt8) :=
  after (fun a b => a = b) (pat.map ch) s

/-- `strcasestr`, and the pointer moved behind the match. -/
def strcasestr (pat : List Char) (s : List UInt8) : Option (List UInt8) :=
  after (fun a b => tolower a = tolower b) (pat.map ch) s

/-- `buf[0] = 0;`, then the field at `p` if there is one, else `return 0`. -/
def copyField (stop : UInt8 → Bool) (n : Nat) (buf : List UInt8) :
    Option (List UInt8) → Filled
  | none => terminate (0, buf)
  | some p =>
    match terminate (0, buf) with
    | .ok (_, buf) => copyTerminated stop n (mem p) buf
    | .error e => .error e

def uriSerialAt (uri : List UInt8) : Option (List UInt8) :=
  strcasestr ['s', 'e', 'r', 'i', 'a', 'l', '='] uri

def getUriSerial (uri buf : List UInt8) (bufSize : Nat) : Filled :=
  if uri = [] then .ok (0, buf)
  else copyField (fun c => c = 0 ∨ c = ch '+') bufSize buf (uriSerialAt uri)

def rawModelAt (id : List UInt8) : Option (List UInt8) :=
  (strstr ['M', 'D', 'L', ':'] id).or (strstr ['M', 'O', 'D', 'E', 'L', ':'] id)

def hpmudGetRawModel (id raw : List UInt8) (rawSize : Nat) : Filled :=
  if id = [] then .ok (0, raw)
  else copyField (fun c => c = ch ';') rawSize raw (rawModelAt id)

def uriModelAt (uri : List UInt8) : Option (List UInt8) :=
  (strstr ['/'] uri).bind (strstr ['/'])

def hpmudGetUriModel (uri buf : List UInt8) (bufSize : Nat) : Filled :=
  if uri = [] then .ok (0, buf)
  else copyField (fun c => c = ch '?') bufSize buf (uriModelAt uri)

/-- Where the data link comes from: the URI itself, or the address that a name stands for. -/
inductive Datalink where
  | absent
  | uri (p : List UInt8)
  | zc (p : List UInt8)

def uriDatalinkAt (uri : List UInt8) : Datalink :=
  match strcasestr ['d', 'e', 'v', 'i', 'c', 'e', '='] uri with
  | some p => .uri p
  | none =>
    match strcasestr ['i', 'p', '='] uri with
    | some p => .uri p
    | none =>
      match strcasestr ['h', 'o', 's', 't', 'n', 'a', 'm', 'e', '='] uri with
      | some p => .uri p
      | none =>
        match strcasestr ['z', 'c', '='] uri with
        | some p => .zc p
        | none => .absent

/-- `mdns_lookup` answers with an address, or not at all as in a build without net-snmp. -/
def hpmudGetUriDatalink (mdnsLookup : List UInt8 → Option CStr) (uri buf : List UInt8)
    (bufSize : Nat) : Filled :=
  if uri = [] then .ok (0, buf)
  else
    match uriDatalinkAt uri with
    | .absent => copyField (fun _ => true) bufSize buf none
    | .uri p => copyField (fun c => c = 0 ∨ c = ch '&') bufSize buf (some p)
    | .zc p => copyField (fun c => c = 0) bufSize buf ((mdnsLookup p).map CStr.chars)

/-! ## The fields -/

def unpadded (s : List UInt8) : List UInt8 :=
  (s.dropWhile (· = ch ' ')).rdropWhile (· = ch ' ')

def isGap (c : UInt8) : Bool := c = ch ' ' ∨ c = ch '/'

def underscored : List UInt8 → List UInt8
  | [] => []
  | c :: s => if isGap c then ch '_' :: underscored (s.dropWhile isGap) else c :: underscored s
termination_by s => s.length
decreasing_by
  · exact Nat.lt_succ_of_le (List.dropWhile_suffix _).length_le
  · exact Nat.lt_succ_self _

/-- The model in the first field of `sz`. -/
def modelText (sz : List UInt8) : List UInt8 := field (fun c => c = ch ';') sz

def modelName (sz : List UInt8) : List UInt8 := underscored (unpadded (modelText sz))

def fieldText (stop : UInt8 → Bool) : Option (List UInt8) → List UInt8
  | none => []
  | some p => field stop p

def datalinkText (mdnsLookup : List UInt8 → Option CStr) (uri : List UInt8) : List UInt8 :=
  match uriDatalinkAt uri with
  | .absent => []
  | .uri p => field (fun c => c = ch '&') p
  | .zc p => ((mdnsLookup p).map CStr.chars).getD []

/-- Whatever a buffer of `n` bytes holds, `f` stays inside it and leaves there as much of
`s` as there is room for, terminated, and returns its length. -/
def Stores (f : List UInt8 → Filled) (n : Nat) (s : List UInt8) : Prop :=
  ∀ buf, buf.length = n → ∃ rest,
    f buf = .ok ((s.take (n - 1)).length, s.take (n - 1) ++ 0 :: rest)
      ∧ (s.take (n - 1) ++ 0 :: rest).length = n

/-! ## Trimming at the end of a buffer -/

/-- As much of `g` as there is room for is not empty and does not end in `c` unless it is
one `c`, and where there is no room for all of it, it is cut before a `c`. -/
def FieldFits (c : UInt8) (g : List UInt8) (n : Nat) : Prop :=
  g.take (n - 1) ≠ []
    ∧ ((g.take (n - 1)).length = 1 ∨ (g.take (n - 1)).getLast? ≠ some c)
    ∧ (g.length < n ∨ g[n - 1]? = some c)

theorem trimTerminate_ok {c : UInt8} {l m : List UInt8} {n : Nat}
    (hm : l.length + m.length = n) (hl : l ≠ []) (hfit : (trimmed c l).length < n) :
    ∃ rest, trimTerminate c (l.length, l ++ m)
        = .ok ((trimmed c l).length, trimmed c l ++ 0 :: rest)
      ∧ (trimmed c l ++ 0 :: rest).length = n := by
  have hpos : 0 < l.length := List.length_pos_of_ne_nil hl
  have hpos' : 0 < (trimmed c l).length := List.length_pos_of_ne_nil (trimmed_ne_nil c hl)
  obtain ⟨j, hj⟩ : ∃ j, l.length = j + 1 := ⟨l.length - 1, by lia⟩
  have hback := trimBack_spec c l m hl
  rw [hj, Nat.add_sub_cancel] at hback
  obtain ⟨t, ht⟩ := trimmed_prefix c l
  obtain ⟨d, rest, hrest⟩ : ∃ d rest, t ++ m = d :: rest := by
    apply List.exists_cons_of_ne_nil
    intro hnil
    have hlen := congrArg List.length ht
    have hnil' := congrArg List.length hnil
    simp only [List.length_append, List.length_nil] at hlen hnil'
    lia
  refine ⟨rest, ?_, ?_⟩
  · rw [hj, trimTerminate, hback]
    dsimp only
    rw [Nat.sub_add_cancel hpos', terminate]
    have hbuf : l ++ m = trimmed c l ++ d :: rest := by
      rw [← hrest, ← List.append_assoc, ht]
    rw [hbuf, store_append]
  · have hlen := congrArg List.length ht
    have hlen' := congrArg List.length hrest
    simp only [List.length_append, List.length_cons] at hlen hlen' ⊢
    lia

theorem trimTerminate_error {c : UInt8} {l m : List UInt8} {n : Nat}
    (hm : l.length + m.length = n) (hl : l = [] ∨ n ≤ (trimmed c l).length) :
    ∃ e, trimTerminate c (l.length, l ++ m) = .error e := by
  by_cases hnil : l = []
  · subst hnil
    exact ⟨.load, rfl⟩
  · have hpos' : 0 < (trimmed c l).length := List.length_pos_of_ne_nil (trimmed_ne_nil c hnil)
    obtain ⟨j, hj⟩ : ∃ j, l.length = j + 1 :=
      ⟨l.length - 1, by have := List.length_pos_of_ne_nil hnil; lia⟩
    have hback := trimBack_spec c l m hnil
    rw [hj, Nat.add_sub_cancel] at hback
    have hlong : n ≤ (trimmed c l).length := hl.resolve_left hnil
    refine ⟨.store, ?_⟩
    rw [hj, trimTerminate, hback]
    dsimp only
    rw [Nat.sub_add_cancel hpos', terminate, store_error]
    simpa [hm] using hlong

theorem stores_iff_trimmed {f : List UInt8 → Filled} {c : UInt8} {n : Nat} {l s : List UInt8}
    (hn : 1 ≤ n) (hl : l.length ≤ n)
    (hf : ∀ buf, buf.length = n → f buf = trimTerminate c (l.length, l ++ buf.drop l.length)) :
    Stores f n s ↔ s.take (n - 1) ≠ [] ∧ trimmed c l = s.take (n - 1) := by
  have hdrop : ∀ buf : List UInt8, buf.length = n → l.length + (buf.drop l.length).length = n := by
    intro buf hbuf
    rw [List.length_drop]
    lia
  constructor
  · intro h
    have hbuf : (List.replicate n (0 : UInt8)).length = n := List.length_replicate
    obtain ⟨rest, hr, -⟩ := h _ hbuf
    rw [hf _ hbuf] at hr
    by_cases hgood : l ≠ [] ∧ (trimmed c l).length < n
    · obtain ⟨rest', hr', -⟩ := trimTerminate_ok (c := c) (hdrop _ hbuf) hgood.1 hgood.2
      rw [hr'] at hr
      simp only [Except.ok.injEq, Prod.mk.injEq] at hr
      have heq := List.append_inj_left hr.2 hr.1
      exact ⟨heq ▸ trimmed_ne_nil c hgood.1, heq⟩
    · obtain ⟨e, he⟩ := trimTerminate_error (c := c) (hdrop _ hbuf)
        (by
          by_cases hnil : l = []
          · exact .inl hnil
          · exact .inr (Nat.not_lt.mp fun h => hgood ⟨hnil, h⟩))
      rw [he] at hr
      cases hr
  · rintro ⟨hne, heq⟩ buf hbuf
    have hl' : l ≠ [] := by
      rintro rfl
      exact hne heq.symm
    have hshort : (trimmed c l).length < n := by
      rw [heq, List.length_take]
      lia
    rw [hf _ hbuf, ← heq]
    exact trimTerminate_ok (hdrop _ hbuf) hl' hshort

theorem trimmed_take_iff {c : UInt8} {h g : List UInt8} {r n : Nat}
    (hh : h = g ++ List.replicate r c) :
    (g.take (n - 1) ≠ [] ∧ trimmed c (h.take n) = g.take (n - 1)) ↔ FieldFits c g n := by
  refine and_congr_right fun hne => ?_
  rw [trimmed_eq_iff hne, and_comm]
  refine and_congr_right fun _ => ?_
  have hn : 1 < n := by
    by_contra hn
    exact hne (by rw [show n - 1 = 0 by lia, List.take_zero])
  by_cases hlen : g.length < n
  · refine iff_of_true ⟨min (n - g.length) r, ?_⟩ (.inl hlen)
    rw [hh, List.take_append, List.take_of_length_le (by lia), List.take_replicate,
      List.take_of_length_le (by lia)]
  · have hget : g[n - 1]? = some g[n - 1] := List.getElem?_eq_getElem (by lia)
    have htake : h.take n = g.take (n - 1) ++ [g[n - 1]] := by
      rw [hh, List.take_append_of_le_length (by lia)]
      conv => lhs; rw [show n = n - 1 + 1 by lia]
      rw [List.take_add_one, hget]
      rfl
    rw [or_iff_right hlen, hget, htake]
    constructor
    · rintro ⟨k, hk⟩
      have hk' := List.append_cancel_left hk
      have hmem : g[n - 1] ∈ List.replicate k c := hk' ▸ List.mem_singleton_self _
      rw [List.eq_of_mem_replicate hmem]
    · intro hc
      exact ⟨1, by rw [Option.some.inj hc]; rfl⟩

theorem eq_replicate_of_shift {a : UInt8} {k : Nat} {m t : List UInt8}
    (h : m ++ List.replicate k a = a :: (m ++ t)) : m = List.replicate m.length a := by
  induction m with
  | nil => rfl
  | cons b m ih =>
    simp only [List.cons_append, List.cons.injEq] at h
    obtain ⟨rfl, h⟩ := h
    rw [List.length_cons, List.replicate_succ, ← ih h]

theorem trimmed_cons_take_iff {c : UInt8} {h g : List UInt8} {r n : Nat}
    (hh : h = g ++ List.replicate r c) :
    (g.take (n - 1) ≠ [] ∧ trimmed c ((c :: h).take n) = g.take (n - 1))
      ↔ g.take (n - 1) = [c] := by
  have hsplit : h.take (n - 1)
      = g.take (n - 1) ++ (List.replicate r c).take (n - 1 - g.length) := by
    rw [hh, List.take_append]
  constructor
  · rintro ⟨hne, ht⟩
    have hn : n = n - 1 + 1 := by
      have := mt (fun h : n - 1 = 0 => by rw [h, List.take_zero]) hne
      lia
    obtain ⟨⟨k, hk⟩, hlast⟩ := (trimmed_eq_iff hne).mp ht
    rw [hn, List.take_succ_cons, Nat.add_sub_cancel] at hk
    generalize g.take (n - 1) = e at *
    cases e with
    | nil => exact absurd rfl hne
    | cons a e =>
      simp only [List.cons_append, List.cons.injEq] at hk hsplit
      obtain ⟨rfl, hk⟩ := hk
      rw [hsplit] at hk
      have hall := eq_replicate_of_shift (m := e) (k := k) (a := c) (by simpa using hk.symm)
      cases e with
      | nil => rfl
      | cons b e =>
        rcases hlast with h | h
        · simp at h
        · refine absurd ?_ h
          rw [List.getLast?_cons_cons, hall, List.getLast?_replicate]
          rfl
  · intro he
    have hne : g.take (n - 1) ≠ [] := by simp [he]
    refine ⟨hne, (trimmed_eq_iff hne).mpr ⟨?_, .inl (by simp [he])⟩⟩
    have hn : n = n - 1 + 1 := by
      have := mt (fun h : n - 1 = 0 => by rw [h, List.take_zero]) hne
      lia
    refine ⟨min (n - 1 - g.length) r + 1, ?_⟩
    conv => lhs; rw [hn]
    rw [List.take_succ_cons, hsplit, he, List.take_replicate]
    simp [List.replicate_succ]

/-! ## The model -/

/-- The characters that the loop stores for a text, after a gap or not. -/
def squeezed : Bool → List UInt8 → List UInt8
  | _, [] => []
  | dd, c :: s =>
    if isGap c then (if dd then squeezed true s else ch '_' :: squeezed true s)
    else c :: squeezed false s

theorem squeezed_true (s : List UInt8) : squeezed true s = squeezed false (s.dropWhile isGap) := by
  induction s with
  | nil => rfl
  | cons c s ih =>
    by_cases hc : isGap c = true
    · rw [squeezed, if_pos hc, if_pos rfl, ih, List.dropWhile_cons_of_pos hc]
    · rw [List.dropWhile_cons_of_neg hc, squeezed, squeezed, if_neg hc, if_neg hc]

theorem underscored_eq (s : List UInt8) : underscored s = squeezed false s := by
  fun_induction underscored s with
  | case1 => rfl
  | case2 c s hc ih => rw [squeezed, if_pos hc, if_neg Bool.false_ne_true, squeezed_true, ih]
  | case3 c s hc ih => rw [squeezed, if_neg hc, ih]

theorem isGap_iff {c : UInt8} : isGap c = true ↔ c = ch ' ' ∨ c = ch '/' := by
  simp [isGap]

theorem squeezed_blanks (dd : Bool) (k : Nat) :
    ∃ r, squeezed dd (List.replicate k (ch ' ')) = List.replicate r (ch '_') := by
  induction k generalizing dd with
  | zero => exact ⟨0, rfl⟩
  | succ k ih =>
    obtain ⟨r, hr⟩ := ih true
    have hgap : isGap (ch ' ') = true := by decide
    rw [List.replicate_succ, squeezed, if_pos hgap, hr]
    cases dd with
    | true => exact ⟨r, rfl⟩
    | false => exact ⟨r + 1, rfl⟩

theorem squeezed_append_blanks (dd : Bool) (s : List UInt8) (k : Nat) :
    ∃ r, squeezed dd (s ++ List.replicate k (ch ' '))
      = squeezed dd s ++ List.replicate r (ch '_') := by
  induction s generalizing dd with
  | nil => exact squeezed_blanks dd k
  | cons c s ih =>
    rw [List.cons_append, squeezed, squeezed]
    by_cases hc : isGap c = true
    · obtain ⟨r, hr⟩ := ih true
      rw [if_pos hc, if_pos hc, hr]
      cases dd with
      | true => exact ⟨r, rfl⟩
      | false => exact ⟨r, rfl⟩
    · obtain ⟨r, hr⟩ := ih false
      rw [if_neg hc, if_neg hc, hr]
      exact ⟨r, rfl⟩

theorem modelLoop_eq {n : Nat} {s : List UInt8} (hs : ∀ c ∈ s, c ≠ 0 ∧ c ≠ ch ';') {d : UInt8}
    (hd : d = 0 ∨ d = ch ';') (rest : List UInt8) (dd : Bool) (l m : List UInt8)
    (hm : l.length + m.length = n) :
    modelLoop n (s ++ d :: rest) l.length dd (l ++ m)
      = .ok ((l ++ (squeezed dd s).take m.length).length,
          (l ++ (squeezed dd s).take m.length)
            ++ m.drop ((squeezed dd s).take m.length).length) := by
  induction s generalizing dd l m with
  | nil =>
    rw [List.nil_append, modelLoop, if_neg]
    · simp [squeezed]
    · rintro ⟨h0, hsemi, -⟩
      exact hd.elim h0 hsemi
  | cons c s ih =>
    have hc := hs c List.mem_cons_self
    have hs' : ∀ c ∈ s, c ≠ 0 ∧ c ≠ ch ';' := fun e he => hs e (List.mem_cons_of_mem _ he)
    rw [List.cons_append, modelLoop]
    cases m with
    | nil =>
      rw [List.length_nil] at hm
      rw [if_neg (by lia)]
      simp
    | cons e m =>
      rw [List.length_cons] at hm
      rw [if_pos ⟨hc.1, hc.2, by lia⟩, squeezed]
      -- one more cell is filled
      have hstore : ∀ a b, modelLoop n (s ++ d :: rest) (l.length + 1) b (l ++ a :: m)
          = .ok ((l ++ (a :: squeezed b s).take (e :: m).length).length,
              (l ++ (a :: squeezed b s).take (e :: m).length)
                ++ (e :: m).drop ((a :: squeezed b s).take (e :: m).length).length) := by
        intro a b
        have hnext := ih hs' b (l ++ [a]) m
          (by rw [List.length_append, List.length_singleton]; lia)
        simpa using hnext
      by_cases hgap : isGap c = true
      · rw [if_pos (isGap_iff.mp hgap), if_pos hgap]
        cases dd with
        | true =>
          rw [if_neg (by simp), if_pos rfl]
          exact ih hs' true l (e :: m) (by rw [List.length_cons]; lia)
        | false =>
          rw [if_pos rfl, if_neg Bool.false_ne_true, store_append]
          exact hstore (ch '_') true
      · rw [if_neg (mt isGap_iff.mpr hgap), if_neg hgap, store_append]
        exact hstore c false

def leading (s : List UInt8) : Nat := (s.takeWhile (· = ch ' ')).length

theorem eatBlanks_eq {d : UInt8} (hd : d ≠ ch ' ') (n : Nat) (s rest : List UInt8) :
    eatBlanks n (s ++ d :: rest) = min n (leading s) := by
  induction s generalizing n with
  | nil =>
    cases n with
    | zero => rfl
    | succ n => simp [eatBlanks, leading, hd]
  | cons c s ih =>
    cases n with
    | zero => simp [eatBlanks]
    | succ n =>
      rw [List.cons_append, eatBlanks]
      by_cases hc : c = ch ' '
      · rw [if_pos hc, ih]
        simp [leading, hc]
      · rw [if_neg hc]
        simp [leading, hc]

theorem drop_leading (s : List UInt8) : s.drop (leading s) = s.dropWhile (· = ch ' ') := by
  induction s with
  | nil => rfl
  | cons c s ih =>
    by_cases hc : c = ch ' '
    · simpa [leading, hc] using ih
    · simp [leading, hc]

theorem drop_of_le_leading {s : List UInt8} {n : Nat} (h : n ≤ leading s) :
    s.drop n = List.replicate (leading s - n) (ch ' ') ++ s.dropWhile (· = ch ' ') := by
  have hblank : s.takeWhile (· = ch ' ') = List.replicate (leading s) (ch ' ') := by
    rw [leading, List.eq_replicate_iff]
    exact ⟨rfl, fun b hb => by simpa using List.mem_takeWhile_imp hb⟩
  conv => lhs; rw [← List.takeWhile_append_dropWhile (p := (· = ch ' ')) (l := s)]
  rw [List.drop_append_of_le_length h, hblank, List.drop_replicate]

theorem leading_le (s : List UInt8) : leading s ≤ s.length :=
  (List.takeWhile_prefix _).length_le

theorem mem_eq_modelText {sz : List UInt8} (hsz : ∀ c ∈ sz, c ≠ 0) :
    (∀ c ∈ modelText sz, c ≠ 0 ∧ c ≠ ch ';')
      ∧ ∃ d rest, (d = 0 ∨ d = ch ';') ∧ mem sz = modelText sz ++ d :: rest := by
  constructor
  · intro c hc
    exact ⟨hsz c ((List.takeWhile_prefix _).subset hc), by simpa using List.mem_takeWhile_imp hc⟩
  · have hsplit : modelText sz ++ sz.dropWhile (fun c => !decide (c = ch ';')) = sz :=
      List.takeWhile_append_dropWhile
    cases hrest : sz.dropWhile (fun c => !decide (c = ch ';')) with
    | nil =>
      rw [hrest, List.append_nil] at hsplit
      exact ⟨0, [], .inl rfl, by rw [hsplit, mem]⟩
    | cons d rest =>
      have hd := List.head_dropWhile_not (fun c => !decide (c = ch ';')) (l := sz) (by simp [hrest])
      refine ⟨d, rest ++ [0], .inr (by simpa [hrest] using hd), ?_⟩
      rw [mem]
      conv => lhs; rw [← hsplit, hrest]
      simp

/-- When a model is stored as it should be: there are no more blanks in front than the
buffer has bytes, or a slash follows them, and the name fits; otherwise the name begins
with an underscore and only that one is stored. -/
def ModelFits (sz : List UInt8) (n : Nat) : Prop :=
  if leading (modelText sz) ≤ n
      ∨ ((modelText sz).dropWhile (· = ch ' ')).head? = some (ch '/') then
    FieldFits (ch '_') (modelName sz) n
  else (modelName sz).take (n - 1) = [ch '_']

theorem not_stores_nil {f : List UInt8 → Filled} {n : Nat} {s : List UInt8}
    (hf : ∀ buf, f buf = .ok (0, buf)) : ¬ Stores f n s := by
  intro h
  obtain ⟨rest, hr, -⟩ := h (List.replicate n 1) List.length_replicate
  rw [hf] at hr
  simp only [Except.ok.injEq, Prod.mk.injEq] at hr
  rw [List.length_eq_zero_iff.mp hr.1.symm, List.nil_append] at hr
  have hmem : (0 : UInt8) ∈ List.replicate n (1 : UInt8) := hr.2 ▸ List.mem_cons_self
  exact absurd (List.eq_of_mem_replicate hmem) (by decide)

theorem generalizeModel_eq {sz buf : List UInt8} {n : Nat} (hsz : ∀ c ∈ sz, c ≠ 0)
    (hne : sz ≠ []) (hbuf : buf.length = n) :
    let l := (squeezed false ((modelText sz).drop (min n (leading (modelText sz))))).take n
    generalizeModel sz buf n = trimTerminate (ch '_') (l.length, l ++ buf.drop l.length) := by
  intro l
  obtain ⟨htext, d, rest, hd, hmem⟩ := mem_eq_modelText hsz
  have hblank : d ≠ ch ' ' := by
    rcases hd with rfl | rfl
    · decide
    · decide
  rw [generalizeModel, if_neg hne]
  dsimp only
  have hle : min n (leading (modelText sz)) ≤ (modelText sz).length :=
    (Nat.min_le_right _ _).trans (leading_le _)
  rw [hmem, eatBlanks_eq hblank, List.drop_append_of_le_length hle]
  have hloop := modelLoop_eq (n := n)
    (s := (modelText sz).drop (min n (leading (modelText sz))))
    (fun c hc => htext c (List.mem_of_mem_drop hc)) hd rest false [] buf (by simpa using hbuf)
  simp only [List.length_nil, List.nil_append] at hloop
  rw [hloop]
  simp only [l, hbuf]

theorem squeezed_text (s : List UInt8) : ∃ r,
    squeezed false (s.dropWhile (· = ch ' '))
      = underscored (unpadded s) ++ List.replicate r (ch '_') := by
  rw [underscored_eq, unpadded]
  generalize s.dropWhile (· = ch ' ') = t
  have htail : t.rtakeWhile (· = ch ' ')
      = List.replicate (t.rtakeWhile (· = ch ' ')).length (ch ' ') := by
    rw [List.eq_replicate_iff]
    exact ⟨rfl, fun b hb => by simpa using List.mem_rtakeWhile_imp hb⟩
  have hsplit : t.rdropWhile (· = ch ' ') ++ t.rtakeWhile (· = ch ' ') = t :=
    List.rdropWhile_append_rtakeWhile
  rw [htail] at hsplit
  obtain ⟨r, hr⟩ := squeezed_append_blanks false (t.rdropWhile (· = ch ' '))
    (t.rtakeWhile (· = ch ' ')).length
  exact ⟨r, by rw [← hr, hsplit]⟩

theorem squeezed_true_blanks (k : Nat) (s : List UInt8) :
    squeezed true (List.replicate k (ch ' ') ++ s) = squeezed true s := by
  induction k with
  | zero => rfl
  | succ k ih =>
    have hgap : isGap (ch ' ') = true := by decide
    rw [List.replicate_succ, List.cons_append, squeezed, if_pos hgap, if_pos rfl, ih]

theorem squeezed_blanks_append {k : Nat} (hk : 0 < k) (s : List UInt8) :
    squeezed false (List.replicate k (ch ' ') ++ s) = ch '_' :: squeezed true s := by
  obtain ⟨k, rfl⟩ := Nat.exists_eq_succ_of_ne_zero (Nat.pos_iff_ne_zero.mp hk)
  have hgap : isGap (ch ' ') = true := by decide
  rw [List.replicate_succ, List.cons_append, squeezed, if_pos hgap, if_neg Bool.false_ne_true,
    squeezed_true_blanks]

theorem generalizeModel_stores_iff {sz : List UInt8} {n : Nat} (hsz : ∀ c ∈ sz, c ≠ 0)
    (hn : 1 ≤ n) :
    Stores (fun buf => generalizeModel sz buf n) n (modelName sz) ↔ ModelFits sz n := by
  by_cases hne : sz = []
  · subst hne
    refine iff_of_false (not_stores_nil fun buf => rfl) ?_
    simp [ModelFits, modelText, field, leading, modelName, unpadded, underscored, FieldFits]
  · rw [stores_iff_trimmed hn (List.length_take_le _ _)
      (fun buf hbuf => generalizeModel_eq hsz hne hbuf)]
    obtain ⟨r, hr⟩ := squeezed_text (modelText sz)
    rw [ModelFits]
    by_cases hk : leading (modelText sz) ≤ n
    · rw [if_pos (.inl hk), Nat.min_eq_right hk, drop_leading]
      exact trimmed_take_iff hr
    · have hn' : n ≤ leading (modelText sz) := Nat.le_of_not_le hk
      rw [Nat.min_eq_left hn', drop_of_le_leading hn', squeezed_blanks_append (by lia)]
      cases ht : (modelText sz).dropWhile (· = ch ' ') with
      | nil =>
        rw [ht] at hr
        rw [if_neg (by simp [hk])]
        exact trimmed_cons_take_iff hr
      | cons c t =>
        have hblank : c ≠ ch ' ' := by
          have := List.head_dropWhile_not (· = ch ' ') (l := modelText sz) (by simp [ht])
          simpa [ht] using this
        rw [ht] at hr
        by_cases hslash : c = ch '/'
        · have hgap : isGap c = true := isGap_iff.mpr (.inr hslash)
          rw [if_pos (.inr (by rw [List.head?_cons, hslash])), squeezed, if_pos hgap, if_pos rfl]
          rw [squeezed, if_pos hgap, if_neg Bool.false_ne_true] at hr
          exact trimmed_take_iff hr
        · have hgap : ¬ isGap c = true := by simp [isGap, hblank, hslash]
          rw [if_neg (by simp [hk, hslash]), squeezed, if_neg hgap]
          rw [squeezed, if_neg hgap] at hr
          exact trimmed_cons_take_iff hr

/-! ## The serial number -/

theorem serialLoop_eq {n : Nat} {s : List UInt8} (hs : ∀ c ∈ s, c ≠ 0) (i : Nat)
    (l m : List UInt8) (hi : l.length ≤ i) (hm : l.length + m.length = n) :
    serialLoop n (mem s) i l.length (l ++ m) = .ok (i + (s.take (n - i)).length,
      l ++ s.take (n - i) ++ m.drop (s.take (n - i)).length) := by
  induction s generalizing i l m with
  | nil =>
    rw [mem, List.nil_append, serialLoop, if_neg (by simp)]
    simp
  | cons c s ih =>
    have hc := hs c List.mem_cons_self
    rw [mem, List.cons_append, serialLoop]
    by_cases hlt : i < n
    · rw [if_pos ⟨hc, hlt⟩]
      cases m with
      | nil =>
        rw [List.length_nil] at hm
        lia
      | cons d m =>
        rw [List.length_cons] at hm
        rw [store_append]
        have hnext := ih (fun e he => hs e (List.mem_cons_of_mem _ he)) (i + 1) (l ++ [c]) m
          (by rw [List.length_append, List.length_singleton]; lia)
          (by rw [List.length_append, List.length_singleton]; lia)
        rw [show n - i = n - (i + 1) + 1 by lia, List.take_succ_cons]
        rw [mem] at hnext
        simpa [Nat.add_assoc, Nat.add_comm 1] using hnext
    · rw [if_neg fun h => hlt h.2, show n - i = 0 by lia]
      simp

/-- When a serial number is stored as it should be: no blank in front of it, and it fits. -/
def SerialFits (sz : List UInt8) (n : Nat) : Prop :=
  sz.head? ≠ some (ch ' ') ∧ FieldFits (ch ' ') (unpadded sz) n

theorem eatBlanks_mem (n : Nat) (sz : List UInt8) :
    eatBlanks n (mem sz) = min n (leading sz) := eatBlanks_eq (by decide) n sz []

theorem drop_mem {sz : List UInt8} {k : Nat} (h : k ≤ sz.length) :
    (mem sz).drop k = mem (sz.drop k) := List.drop_append_of_le_length h

theorem generalizeSerial_eq {sz buf : List UInt8} {n : Nat} (hsz : ∀ c ∈ sz, c ≠ 0)
    (hne : sz ≠ []) (hbuf : buf.length = n) :
    let k := min n (leading sz)
    let l := (sz.drop k).take (n - k)
    generalizeSerial sz buf n = trimTerminate (ch ' ') (k + l.length, l ++ buf.drop l.length) := by
  intro k l
  rw [generalizeSerial, if_neg hne]
  dsimp only
  rw [eatBlanks_mem, drop_mem ((Nat.min_le_right _ _).trans (leading_le _))]
  have hloop := serialLoop_eq (n := n) (s := sz.drop k)
    (fun c hc => hsz c (List.mem_of_mem_drop hc)) k [] buf (Nat.zero_le _) (by simpa using hbuf)
  simp only [List.length_nil, List.nil_append] at hloop
  rw [hloop]

theorem trimTerminate_stops {buf : List UInt8} {c d : UInt8} {j : Nat} (hd : buf[j]? = some d)
    (hne : d ≠ c) : trimTerminate c (j + 1, buf) = terminate (j + 1, buf) := by
  have hload : load buf j = .ok d := by rw [load, hd]
  cases j with
  | zero => rw [trimTerminate, trimBack, hload]
  | succ j => rw [trimTerminate, trimBack, hload]; simp only [if_neg hne]

theorem generalizeSerial_leading {sz : List UInt8} {n : Nat} (hsz : ∀ c ∈ sz, c ≠ 0)
    (hn : 1 ≤ n) (hlead : 0 < leading sz) :
    ¬ Stores (fun buf => generalizeSerial sz buf n) n (unpadded sz) := by
  intro h
  have hne : sz ≠ [] := by
    rintro rfl
    exact absurd hlead (by decide)
  have hbuf : (List.replicate n (1 : UInt8)).length = n := List.length_replicate
  obtain ⟨rest, hr, hlen⟩ := h _ hbuf
  dsimp only at hr
  rw [generalizeSerial_eq hsz hne hbuf] at hr
  have hle := leading_le sz
  generalize hk : min n (leading sz) = k at hr
  generalize hl : (sz.drop k).take (n - k) = l at hr
  have hll : l.length = min (n - k) (sz.length - k) := by
    rw [← hl, List.length_take, List.length_drop]
  obtain ⟨j, hj⟩ : ∃ j, k + l.length = j + 1 := ⟨k + l.length - 1, by lia⟩
  have hget : (l ++ (List.replicate n (1 : UInt8)).drop l.length)[j]? = some 1 := by
    rw [List.getElem?_append_right (by lia), List.getElem?_drop, List.getElem?_replicate,
      if_pos (by lia)]
  rw [hj, trimTerminate_stops hget (by decide), ← hj, terminate] at hr
  by_cases hfull : k + l.length < n
  · rw [store_eq 0 (by simp; lia)] at hr
    simp only [Except.ok.injEq, Prod.mk.injEq] at hr
    have hshort : (unpadded sz).length ≤ sz.length - leading sz := by
      rw [unpadded, ← drop_leading, ← List.length_drop]
      exact (List.rdropWhile_prefix _ _).length_le
    have hlen' := List.length_take_le' (n - 1) (unpadded sz)
    lia
  · rw [store_error 0 (by simp; lia)] at hr
    cases hr

theorem generalizeSerial_stores_iff {sz : List UInt8} {n : Nat} (hsz : ∀ c ∈ sz, c ≠ 0)
    (hn : 1 ≤ n) :
    Stores (fun buf => generalizeSerial sz buf n) n (unpadded sz) ↔ SerialFits sz n := by
  cases hcons : sz with
  | nil =>
    refine iff_of_false (not_stores_nil fun buf => rfl) ?_
    simp [SerialFits, unpadded, FieldFits]
  | cons c s =>
    by_cases hc : c = ch ' '
    · rw [← hcons]
      refine iff_of_false (generalizeSerial_leading hsz hn ?_) ?_
      · simp [hcons, leading, hc]
      · rintro ⟨hhead, -⟩
        exact hhead (by rw [hcons, List.head?_cons, hc])
    · have hlead : leading sz = 0 := by simp [hcons, leading, hc]
      have hdrop : sz.dropWhile (· = ch ' ') = sz := by simp [hcons, hc]
      rw [← hcons, stores_iff_trimmed (c := ch ' ') (l := sz.take n) hn
        (List.length_take_le _ _) (by
          intro buf hbuf
          have heq := generalizeSerial_eq hsz (by simp [hcons]) hbuf
          simpa [hlead] using heq)]
      have htail : sz.rtakeWhile (· = ch ' ')
          = List.replicate (sz.rtakeWhile (· = ch ' ')).length (ch ' ') := by
        rw [List.eq_replicate_iff]
        exact ⟨rfl, fun b hb => by simpa using List.mem_rtakeWhile_imp hb⟩
      have hsplit : sz.rdropWhile (· = ch ' ') ++ sz.rtakeWhile (· = ch ' ') = sz :=
        List.rdropWhile_append_rtakeWhile
      rw [htail] at hsplit
      rw [trimmed_take_iff (g := unpadded sz) (by rw [unpadded, hdrop]; exact hsplit.symm)]
      have hhead : sz.head? ≠ some (ch ' ') := by simp [hcons, hc]
      rw [SerialFits]
      exact (and_iff_right hhead).symm

/-! ## The fields that are copied -/

theorem field_mem {stop : UInt8 → Bool} {p : List UInt8} (h : ∃ c ∈ mem p, stop c = true) :
    field stop (mem p) = field stop p := by
  induction p with
  | nil =>
    obtain ⟨c, hc, hs⟩ := h
    rw [mem, List.nil_append, List.mem_singleton] at hc
    subst hc
    simp [mem, field, hs]
  | cons d p ih =>
    by_cases hd : stop d = true
    · simp [mem, field, hd]
    · have hrest : ∃ c ∈ mem p, stop c = true := by
        obtain ⟨c, hc, hs⟩ := h
        rw [mem, List.cons_append] at hc
        rcases List.mem_cons.mp hc with rfl | hc
        · exact absurd hs hd
        · exact ⟨c, hc, hs⟩
      have hfield := ih hrest
      rw [mem, field] at hfield
      simpa [mem, field, hd] using hfield

theorem terminate_zero {n : Nat} (hn : 1 ≤ n) {buf : List UInt8} (hbuf : buf.length = n) :
    terminate (0, buf) = .ok (0, 0 :: buf.drop 1) := by
  cases buf with
  | nil => simp at hbuf; omega
  | cons d buf => rfl

theorem copyField_stores_iff {stop : UInt8 → Bool} {n : Nat} (hn : 1 ≤ n) (p : List UInt8) :
    Stores (fun buf => copyField stop n buf (some p)) n (field stop p)
      ↔ (∃ c ∈ mem p, stop c = true) ∧ (field stop p).length < n := by
  have hcopy : ∀ buf : List UInt8, buf.length = n →
      copyField stop n buf (some p) = copyTerminated stop n (mem p) (0 :: buf.drop 1) := by
    intro buf hbuf
    rw [copyField, terminate_zero hn hbuf]
  have hlen : ∀ buf : List UInt8, buf.length = n → (0 :: buf.drop 1).length = n := by
    intro buf hbuf
    rw [List.length_cons, List.length_drop]
    lia
  constructor
  · intro h
    have hbuf : (List.replicate n (0 : UInt8)).length = n := List.length_replicate
    obtain ⟨rest, hr, -⟩ := h _ hbuf
    dsimp only at hr
    rw [hcopy _ hbuf] at hr
    by_contra hcon
    obtain ⟨e, he⟩ := copyTerminated_error stop (mem p) (hlen _ hbuf)
      (by
        by_cases hd : ∃ c ∈ mem p, stop c = true
        · left
          rw [field_mem hd]
          exact Nat.not_lt.mp fun hlt => hcon ⟨hd, hlt⟩
        · right
          intro c hc
          by_contra hs
          exact hd ⟨c, hc, by simpa using hs⟩)
    rw [he] at hr
    cases hr
  · rintro ⟨hd, hlt⟩ buf hbuf
    refine ⟨(0 :: buf.drop 1).drop ((field stop p).length + 1), ?_, ?_⟩
    · dsimp only
      rw [hcopy _ hbuf, copyTerminated_ok hd (hlen _ hbuf) (by rwa [field_mem hd]), field_mem hd,
        List.take_of_length_le (by lia)]
    · rw [List.take_of_length_le (by lia)]
      have := hlen _ hbuf
      simp only [List.length_append, List.length_cons, List.length_drop] at *
      lia

theorem copyField_none_stores {stop : UInt8 → Bool} {n : Nat} (hn : 1 ≤ n) :
    Stores (fun buf => copyField stop n buf none) n [] := by
  intro buf hbuf
  refine ⟨buf.drop 1, ?_, ?_⟩
  · dsimp only
    rw [copyField, terminate_zero hn hbuf]
    simp
  · simp
    lia

/-- A NUL-terminated field: it is shorter than the buffer. -/
def TextFits (s text : List UInt8) (n : Nat) : Prop := s ≠ [] ∧ text.length < n

/-- A field that only its delimiter ends: where there is a field, the delimiter is there too,
and before the end of the buffer. -/
def DelimiterFits (s : List UInt8) (stop : UInt8 → Bool) (at? : Option (List UInt8))
    (n : Nat) : Prop :=
  s ≠ [] ∧ ∀ p, at? = some p → (∃ c ∈ p, stop c = true) ∧ (field stop p).length < n

theorem field_or_nul {d : UInt8} {p : List UInt8} (hp : ∀ c ∈ p, c ≠ 0) :
    field (fun c => c = 0 ∨ c = d) p = field (fun c => c = d) p := by
  unfold field
  induction p with
  | nil => rfl
  | cons c p ih =>
    have hc := hp c List.mem_cons_self
    have hrest := ih fun e he => hp e (List.mem_cons_of_mem _ he)
    by_cases hd : c = d
    · simp [hd]
    · simpa [hc, hd] using hrest

theorem copyText_stores_iff {d : UInt8} {n : Nat} (hn : 1 ≤ n) {p : List UInt8}
    (hp : ∀ c ∈ p, c ≠ 0) :
    Stores (fun buf => copyField (fun c => c = 0 ∨ c = d) n buf (some p)) n
      (field (fun c => c = d) p) ↔ (field (fun c => c = d) p).length < n := by
  rw [← field_or_nul hp, copyField_stores_iff hn]
  exact and_iff_right ⟨0, List.mem_append_right _ (List.mem_singleton_self _), by simp⟩

theorem copyDelimited_stores_iff {d : UInt8} (hd : d ≠ 0) {n : Nat} (hn : 1 ≤ n)
    (p : List UInt8) :
    Stores (fun buf => copyField (fun c => c = d) n buf (some p)) n (field (fun c => c = d) p)
      ↔ (∃ c ∈ p, decide (c = d) = true) ∧ (field (fun c => c = d) p).length < n := by
  rw [copyField_stores_iff hn]
  refine and_congr_left fun _ => ?_
  simp [mem, hd]

theorem getUriSerial_stores_iff {uri : List UInt8} {n : Nat} (hn : 1 ≤ n)
    (huri : ∀ c ∈ uri, c ≠ 0) :
    Stores (fun buf => getUriSerial uri buf n) n
        (fieldText (fun c => c = ch '+') (uriSerialAt uri))
      ↔ TextFits uri (fieldText (fun c => c = ch '+') (uriSerialAt uri)) n := by
  by_cases hne : uri = []
  · subst hne
    exact iff_of_false (not_stores_nil fun buf => rfl) fun h => h.1 rfl
  · rw [TextFits, and_iff_right hne]
    simp only [getUriSerial, if_neg hne]
    cases hat : uriSerialAt uri with
    | none => exact iff_of_true (copyField_none_stores hn) hn
    | some p => exact copyText_stores_iff hn fun c hc => huri c (mem_of_after hat hc)

theorem copyAt_stores_iff {s : List UInt8} {d : UInt8} {at? : Option (List UInt8)} {n : Nat}
    (hn : 1 ≤ n) (hd : d ≠ 0) :
    Stores (fun buf => if s = [] then .ok (0, buf) else copyField (fun c => c = d) n buf at?) n
        (fieldText (fun c => c = d) at?)
      ↔ DelimiterFits s (fun c => c = d) at? n := by
  by_cases hne : s = []
  · subst hne
    exact iff_of_false (not_stores_nil fun buf => rfl) fun h => h.1 rfl
  · rw [DelimiterFits, and_iff_right hne]
    simp only [if_neg hne]
    cases at? with
    | none =>
      refine iff_of_true (copyField_none_stores hn) ?_
      intro p hp
      cases hp
    | some p =>
      rw [fieldText, copyDelimited_stores_iff hd hn]
      simp

theorem hpmudGetRawModel_stores_iff {id : List UInt8} {n : Nat} (hn : 1 ≤ n) :
    Stores (fun raw => hpmudGetRawModel id raw n) n
        (fieldText (fun c => c = ch ';') (rawModelAt id))
      ↔ DelimiterFits id (fun c => c = ch ';') (rawModelAt id) n :=
  copyAt_stores_iff hn (by decide)

theorem hpmudGetUriModel_stores_iff {uri : List UInt8} {n : Nat} (hn : 1 ≤ n) :
    Stores (fun buf => hpmudGetUriModel uri buf n) n
        (fieldText (fun c => c = ch '?') (uriModelAt uri))
      ↔ DelimiterFits uri (fun c => c = ch '?') (uriModelAt uri) n :=
  copyAt_stores_iff hn (by decide)

theorem mem_of_datalink {uri p : List UInt8} (h : uriDatalinkAt uri = .uri p) {c : UInt8}
    (hc : c ∈ p) : c ∈ uri := by
  rw [uriDatalinkAt] at h
  repeat' split at h
  all_goals cases h
  all_goals rename_i hat
  all_goals exact mem_of_after hat hc

theorem field_nul {p : List UInt8} (hp : ∀ c ∈ p, c ≠ 0) :
    field (fun c => c = 0) p = p := by
  rw [field, List.takeWhile_eq_self_iff]
  intro c hc
  simpa using hp c hc

theorem hpmudGetUriDatalink_stores_iff {mdnsLookup : List UInt8 → Option CStr}
    {uri : List UInt8} {n : Nat} (hn : 1 ≤ n) (huri : ∀ c ∈ uri, c ≠ 0) :
    Stores (fun buf => hpmudGetUriDatalink mdnsLookup uri buf n) n (datalinkText mdnsLookup uri)
      ↔ TextFits uri (datalinkText mdnsLookup uri) n := by
  by_cases hne : uri = []
  · subst hne
    exact iff_of_false (not_stores_nil fun buf => rfl) fun h => h.1 rfl
  · rw [TextFits, and_iff_right hne]
    simp only [hpmudGetUriDatalink, if_neg hne, datalinkText]
    cases hat : uriDatalinkAt uri with
    | absent => exact iff_of_true (copyField_none_stores hn) hn
    | uri p => exact copyText_stores_iff hn fun c hc => huri c (mem_of_datalink hat hc)
    | zc p =>
      dsimp only
      cases mdnsLookup p with
      | none => exact iff_of_true (copyField_none_stores hn) hn
      | some ip =>
        rw [Option.map_some, Option.getD_some]
        conv => enter [1, 3]; rw [← field_nul ip.noNul]
        conv => enter [2, 1]; rw [← field_nul ip.noNul]
        rw [copyField_stores_iff hn]
        exact and_iff_right ⟨0, List.mem_append_right _ (List.mem_singleton_self _), by simp⟩

/-- The six functions, each under the condition that its loop and its trimming put on the
string and the size. -/
theorem fields_stored_iff (mdnsLookup : List UInt8 → Option CStr) (s : CStr) (n : Nat)
    (hn : 1 ≤ n) :
    (Stores (fun buf => generalizeModel s.chars buf n) n (modelName s.chars)
        ↔ ModelFits s.chars n)
      ∧ (Stores (fun buf => generalizeSerial s.chars buf n) n (unpadded s.chars)
        ↔ SerialFits s.chars n)
      ∧ (Stores (fun buf => getUriSerial s.chars buf n) n
          (fieldText (fun c => c = ch '+') (uriSerialAt s.chars))
        ↔ TextFits s.chars (fieldText (fun c => c = ch '+') (uriSerialAt s.chars)) n)
      ∧ (Stores (fun raw => hpmudGetRawModel s.chars raw n) n
          (fieldText (fun c => c = ch ';') (rawModelAt s.chars))
        ↔ DelimiterFits s.chars (fun c => c = ch ';') (rawModelAt s.chars) n)
      ∧ (Stores (fun buf => hpmudGetUriModel s.chars buf n) n
          (fieldText (fun c => c = ch '?') (uriModelAt s.chars))
        ↔ DelimiterFits s.chars (fun c => c = ch '?') (uriModelAt s.chars) n)
      ∧ (Stores (fun buf => hpmudGetUriDatalink mdnsLookup s.chars buf n) n
          (datalinkText mdnsLookup s.chars)
        ↔ TextFits s.chars (datalinkText mdnsLookup s.chars) n) :=
  ⟨generalizeModel_stores_iff s.noNul hn, generalizeSerial_stores_iff s.noNul hn,
    getUriSerial_stores_iff hn s.noNul, hpmudGetRawModel_stores_iff hn,
    hpmudGetUriModel_stores_iff hn, hpmudGetUriDatalink_stores_iff hn s.noNul⟩

set_option maxRecDepth 2000 in
/-- A model with its blanks and its slash, in a buffer that has room for it. -/
theorem fields_stored_model :
    Stores (fun buf => generalizeModel (" HP 6/7 ;X".toList.map ch) buf 8) 8
      ("HP_6_7".toList.map ch) := by
  have hname : modelName (" HP 6/7 ;X".toList.map ch) = "HP_6_7".toList.map ch := by
    decide +kernel
  have hfits : ModelFits (" HP 6/7 ;X".toList.map ch) 8 := by
    rw [ModelFits, if_pos (by decide), hname]
    unfold FieldFits
    decide
  rw [← hname]
  exact (fields_stored_iff (fun _ => none) ⟨" HP 6/7 ;X".toList.map ch, by decide⟩ 8
    (by decide)).1.mpr hfits

/-- A model, a serial number, a raw model and the two fields of a URI that do not. -/
theorem fields_overflow :
    ¬ Stores (fun buf => generalizeModel ("abcd;".toList.map ch) buf 4) 4
        (modelName ("abcd;".toList.map ch))
      ∧ ¬ Stores (fun buf => generalizeSerial (" 12".toList.map ch) buf 8) 8
        (unpadded (" 12".toList.map ch))
      ∧ ¬ Stores (fun raw => hpmudGetRawModel ("MDL:ab".toList.map ch) raw 8) 8
        (fieldText (fun c => c = ch ';') (rawModelAt ("MDL:ab".toList.map ch)))
      ∧ ¬ Stores (fun buf => hpmudGetUriModel ("hp:/usb/ab".toList.map ch) buf 8) 8
        (fieldText (fun c => c = ch '?') (uriModelAt ("hp:/usb/ab".toList.map ch)))
      ∧ ¬ Stores (fun buf => getUriSerial ("?serial=1234".toList.map ch) buf 4) 4
        (fieldText (fun c => c = ch '+') (uriSerialAt ("?serial=1234".toList.map ch)))
      ∧ ¬ Stores (fun buf => hpmudGetUriDatalink (fun _ => none)
          ("?device=1234".toList.map ch) buf 4) 4
        (datalinkText (fun _ => none) ("?device=1234".toList.map ch)) := by
  have herror : ∀ {f : List UInt8 → Filled} {n : Nat} {s : List UInt8} {e : Fault},
      f (List.replicate n 1) = .error e → ¬ Stores f n s := by
    intro f n s e he h
    obtain ⟨rest, hr, -⟩ := h (List.replicate n 1) List.length_replicate
    rw [he] at hr
    cases hr
  refine ⟨herror (e := .store) (by decide), ?_, herror (e := .load) (by decide),
    herror (e := .load) (by decide), herror (e := .store) (by decide),
    herror (e := .store) (by decide)⟩
  intro h
  obtain ⟨rest, hr, -⟩ := h (List.replicate 8 1) List.length_replicate
  have hlen : (generalizeSerial (" 12".toList.map ch) (List.replicate 8 1) 8).toOption.map
      Prod.fst = some 3 := by decide
  dsimp only at hr
  rw [hr] at hlen
  have hthree : ((unpadded (" 12".toList.map ch)).take (8 - 1)).length = 3 := Option.some.inj hlen
  exact absurd hthree (by decide)

end Hplip.Hpmud
