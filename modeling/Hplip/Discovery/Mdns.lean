import Mathlib.Logic.Function.Basic
import Hplip.Lib.Loop
import Hplip.Lib.Slice

/-!
# Names in multicast DNS packets (mdns.c)

A dotted name goes into a packet as its labels, each behind its length, and a zero byte.
`mdns_convert_name_to_dns` writes them through a pointer, with an index into the name beside it;
`mdns_readName` reads them again.
-/

namespace Hplip.Discovery

open Loop

/-- The code of `'.'`. -/
abbrev dot : UInt8 := 46

/-- `i` and `dns_name` apart: the pointer, the index into the name, and the stores so far. -/
structure Converter where
  p : Nat
  x : Nat
  stores : List (Nat × UInt8)

/-- `*p++ = c` -/
def Converter.putc (s : Converter) (c : UInt8) : Converter :=
  { s with p := s.p + 1, stores := s.stores ++ [(s.p, c)] }

/-- The label up to `i`: its length, its characters, and over the dot. -/
def Converter.label (name : List UInt8) (i : Nat) (s : Converter) : Converter :=
  let s := s.putc (i - s.x).toUInt8
  let t := (List.range' s.x (i - s.x)).foldl (fun t j => t.putc (name.getD j 0)) s
  { t with x := s.x + (i - s.x) + 1 }

def Converter.visit (name : List UInt8) (s : Converter) (i : Nat) : Converter :=
  if name.getD i 0 = dot then s.label name i else s

/-- `mdns_convert_name_to_dns` of a string without its NUL: the length that it returns, and the
stores to `dns_name`. -/
def mdnsConvertNameToDns (name : List UInt8) (nameSize : Nat) : Nat × List (Nat × UInt8) :=
  if name = [] then (0, [])
  else
    let i := min nameSize name.length
    let s : Converter := (List.range' 0 i).foldl (Converter.visit name) ⟨0, 0, []⟩
    let s := if i ≠ 0 then s.label name i else s
    -- the index of the source is added to the pointer, which has moved already
    (s.x + 1, s.stores ++ [(s.p + s.x, 0)])

abbrev qclassIn : UInt8 := 1

/-- `header` of `mdns_create_query_packet`. -/
def queryHeader : List UInt8 := [0, 0, 0, 0, 0, 1, 0, 0, 0, 0, 0, 0]

/-- `mdns_create_query_packet`: `*length`, and the stores to `querybuf`. -/
def mdnsCreateQueryPacket (fqdn : List UInt8) (queryType : UInt8) : Nat × List (Nat × UInt8) :=
  let converted := mdnsConvertNameToDns fqdn fqdn.length
  let n := queryHeader.length
  let name := converted.2.map fun w => (n + w.1, w.2)
  let n := n + converted.1
  (n + 4, (List.range' 0 queryHeader.length).zip queryHeader ++ name
    ++ [(n, 0), (n + 1, queryType), (n + 2, 0), (n + 3, qclassIn)])

def stored (m : Nat → UInt8) (stores : List (Nat × UInt8)) : Nat → UInt8 :=
  stores.foldl (fun m w => Function.update m w.1 w.2) m

/-- The pointers of `mdns_readName` into the packet and into `buf`, and `buf`. -/
structure Reader where
  p : Nat
  name : Nat
  buf : Nat → UInt8

/-- `while (size = *p++)`; the result is `none` if the NUL would be stored before `buf`. -/
def readStep (response : Nat → UInt8) (s : Reader) : Reader ⊕ Option Reader :=
  let size := (response s.p).toNat
  let s := { s with p := s.p + 1 }
  if size = 0 then
    if s.name = 0 then .inr none
    else .inr (some { s with buf := Function.update s.buf (s.name - 1) 0 })
  else if 0xC0 ≤ size then .inr (some { s with p := s.p + 1 })
  else
    let buf := blit s.buf s.name (fun j => response (s.p + j)) size
    .inl ⟨s.p + size, s.name + (size + 1), Function.update buf (s.name + size) dot⟩

/-- `mdns_readName`, if it ends: `p` is what it returns. -/
def ReadsName (response buf : Nat → UInt8) (s : Reader) : Prop :=
  ∃ n, rounds (readStep response) n ⟨0, 0, buf⟩ = .inr (some s)

/-! ## Names -/

def dotted : List (List UInt8) → List UInt8
  | [] => []
  | [l] => l
  | l :: ls => l ++ dot :: dotted ls

structure Label where
  chars : List UInt8
  nonempty : chars ≠ []
  length_le : chars.length ≤ 63
  noDot : dot ∉ chars
  noNul : 0 ∉ chars

structure HostName where
  labels : List Label
  nonempty : labels ≠ []
  length_le : (dotted (labels.map Label.chars)).length ≤ 254

def HostName.text (h : HostName) : List UInt8 := dotted (h.labels.map Label.chars)

def encodeLabels (ls : List Label) : List UInt8 :=
  ls.flatMap fun l => l.chars.length.toUInt8 :: l.chars

def HostName.encoding (h : HostName) : List UInt8 := encodeLabels h.labels ++ [0]

def storesAt : Nat → List UInt8 → List (Nat × UInt8)
  | _, [] => []
  | p, c :: l => (p, c) :: storesAt (p + 1) l

/-- Reading a packet gives the name, and consumes its encoding. -/
def ReadsBack (h : HostName) (response : Nat → UInt8) : Prop :=
  ∀ buf, ∃ s, ReadsName response buf s ∧ s.p = h.encoding.length ∧
    slice s.buf 0 (h.text.length + 1) = h.text ++ [0]

/-- A name is converted as it should be, and read back. -/
structure RoundTrip (h : HostName) (m : Nat → UInt8) : Prop where
  returns : (mdnsConvertNameToDns h.text h.text.length).1 = h.encoding.length
  writes : slice (stored m (mdnsConvertNameToDns h.text h.text.length).2) 0 h.encoding.length
    = h.encoding
  inside : ∀ w ∈ (mdnsConvertNameToDns h.text h.text.length).2, w.1 < h.encoding.length
  reads : ReadsBack h (stored m (mdnsConvertNameToDns h.text h.text.length).2)

/-! ## Converting -/

section Convert

theorem storesAt_append (p : Nat) (a b : List UInt8) :
    storesAt p (a ++ b) = storesAt p a ++ storesAt (p + a.length) b := by
  induction a generalizing p with
  | nil => rfl
  | cons c a ih =>
    rw [List.cons_append, storesAt, ih, storesAt, List.cons_append, List.length_cons,
      Nat.add_comm a.length, Nat.add_assoc]

theorem foldl_putc (name : List UInt8) (s : Converter) (i k : Nat) :
    (List.range' i k).foldl (fun t j => t.putc (name.getD j 0)) s
      = { s with
          p := s.p + k
          stores := s.stores ++ storesAt s.p ((List.range' i k).map fun j => name.getD j 0) } := by
  induction k generalizing s i with
  | zero => simp [storesAt]
  | succ k ih =>
    rw [List.range'_succ, List.foldl_cons, ih, Converter.putc]
    simp [storesAt, Nat.add_assoc, Nat.add_comm 1 k]

theorem map_range'_getD (a l b : List UInt8) :
    (List.range' a.length l.length).map (fun j => (a ++ (l ++ b)).getD j 0) = l := by
  refine List.ext_getElem (by simp) fun j hj hl => ?_
  simp only [List.getElem_map, List.getElem_range', Nat.one_mul, List.getD_eq_getElem?_getD]
  rw [List.getElem?_append_right (Nat.le_add_right _ _), Nat.add_sub_cancel_left,
    List.getElem?_append_left hl, List.getElem?_eq_getElem hl]
  rfl

theorem label_eq (a l b : List UInt8) {s : Converter} (hx : s.x = a.length) :
    s.label (a ++ (l ++ b)) (a.length + l.length)
      = ⟨s.p + (l.length + 1), a.length + l.length + 1,
        s.stores ++ storesAt s.p (l.length.toUInt8 :: l)⟩ := by
  rw [Converter.label, Converter.putc]
  dsimp only
  rw [hx, Nat.add_sub_cancel_left, foldl_putc]
  dsimp only
  rw [map_range'_getD, storesAt, List.append_assoc, List.singleton_append]
  congr 1
  omega

theorem foldl_visit_noDot (a l b : List UInt8) (hl : dot ∉ l) (s : Converter) :
    (List.range' a.length l.length).foldl (Converter.visit (a ++ (l ++ b))) s = s := by
  induction l generalizing a with
  | nil => rfl
  | cons c l ih =>
    have hc : c ≠ dot := fun h => hl (h ▸ List.mem_cons_self)
    have hrest := ih (a ++ [c]) fun h => hl (List.mem_cons_of_mem c h)
    have hget : (a ++ (c :: l ++ b)).getD a.length 0 = c := by simp
    rw [List.length_append, List.length_singleton, List.append_assoc, List.singleton_append]
      at hrest
    rw [List.length_cons, List.range'_succ, List.foldl_cons, Converter.visit, hget, if_neg hc]
    exact hrest

theorem convert_labels (ls : List Label) (hls : ls ≠ []) (a : List UInt8) {s : Converter}
    (hx : s.x = a.length) (name : List UInt8)
    (hname : name = a ++ dotted (ls.map Label.chars)) :
    ((List.range' a.length (dotted (ls.map Label.chars)).length).foldl
        (Converter.visit name) s).label name name.length
      = ⟨s.p + (encodeLabels ls).length, name.length + 1,
        s.stores ++ storesAt s.p (encodeLabels ls)⟩ := by
  induction ls generalizing a s with
  | nil => exact absurd rfl hls
  | cons l ls ih =>
    cases ls with
    | nil =>
      have hlast := foldl_visit_noDot a l.chars [] l.noDot s
      have hlabel := label_eq a l.chars [] hx
      rw [List.append_nil] at hlast hlabel
      have htext : dotted ([l].map Label.chars) = l.chars := rfl
      rw [htext] at hname ⊢
      rw [hname, hlast, List.length_append, hlabel]
      simp [encodeLabels]
    | cons k ls =>
      obtain ⟨rest, hrest⟩ : ∃ rest, rest = dotted ((k :: ls).map Label.chars) := ⟨_, rfl⟩
      have htext : dotted ((l :: k :: ls).map Label.chars) = l.chars ++ dot :: rest := by
        rw [hrest]
        rfl
      rw [htext] at hname ⊢
      have hlabel := label_eq a l.chars (dot :: rest) hx
      have hget : name.getD (a.length + l.chars.length) 0 = dot := by
        rw [hname, ← List.append_assoc, ← List.length_append]
        simp
      -- up to the dot, the dot, and the labels behind it
      have hlength : (l.chars ++ dot :: rest).length = l.chars.length + (1 + rest.length) := by
        rw [List.length_append, List.length_cons, Nat.add_comm rest.length]
      rw [hlength, ← List.range'_append_1, ← List.range'_append_1, List.foldl_append,
        List.foldl_append]
      have hbetween : (List.range' a.length l.chars.length).foldl (Converter.visit name) s
          = s := by
        rw [hname]
        exact foldl_visit_noDot a l.chars (dot :: rest) l.noDot s
      rw [hbetween, List.range'_one, List.foldl_cons, List.foldl_nil, Converter.visit, if_pos hget]
      rw [← hname] at hlabel
      have hnext := ih (List.cons_ne_nil k ls) (a ++ (l.chars ++ [dot]))
        (s := s.label name (a.length + l.chars.length)) (by rw [hlabel]; simp [Nat.add_assoc])
        (by rw [hname, ← hrest]; simp)
      rw [← hrest] at hnext
      simp only [List.length_append, List.length_singleton] at hnext
      rw [Nat.add_assoc a.length, hnext, hlabel]
      have hencode : encodeLabels (l :: k :: ls)
          = (l.chars.length.toUInt8 :: l.chars) ++ encodeLabels (k :: ls) := by
        simp [encodeLabels]
      rw [hencode, storesAt_append, List.append_assoc, List.length_append, List.length_cons]
      simp only [Nat.add_assoc]

theorem dotted_length {ls : List Label} (hls : ls ≠ []) :
    (encodeLabels ls).length = (dotted (ls.map Label.chars)).length + 1 := by
  induction ls with
  | nil => exact absurd rfl hls
  | cons l ls ih =>
    have hencode : encodeLabels (l :: ls)
        = (l.chars.length.toUInt8 :: l.chars) ++ encodeLabels ls := by
      simp [encodeLabels]
    rw [hencode, List.length_append, List.length_cons]
    cases ls with
    | nil => simp [encodeLabels, dotted]
    | cons k ls =>
      have hdotted : dotted ((l :: k :: ls).map Label.chars)
          = l.chars ++ dot :: dotted ((k :: ls).map Label.chars) := rfl
      rw [ih (List.cons_ne_nil k ls), hdotted, List.length_append, List.length_cons]
      lia

theorem HostName.text_ne_nil (h : HostName) : h.text ≠ [] := by
  intro hnil
  obtain ⟨l, ls, hls⟩ := List.exists_cons_of_ne_nil h.nonempty
  rw [HostName.text, hls] at hnil
  cases ls with
  | nil => exact l.nonempty hnil
  | cons k ls => exact l.nonempty (List.append_eq_nil_iff.mp hnil).1

theorem HostName.labels_length (h : HostName) :
    (encodeLabels h.labels).length = h.text.length + 1 := dotted_length h.nonempty

theorem HostName.encoding_length (h : HostName) : h.encoding.length = h.text.length + 2 := by
  rw [HostName.encoding, List.length_append, h.labels_length]
  rfl

theorem convert_eq (h : HostName) :
    mdnsConvertNameToDns h.text h.text.length = (h.text.length + 2,
      storesAt 0 (encodeLabels h.labels) ++ [(h.text.length + 1 + (h.text.length + 1), 0)]) := by
  have hlength : h.text.length ≠ 0 := fun hz => h.text_ne_nil (List.length_eq_zero_iff.mp hz)
  have hlabels := convert_labels h.labels h.nonempty [] (s := ⟨0, 0, []⟩) rfl h.text rfl
  rw [List.length_nil, Nat.zero_add, List.nil_append] at hlabels
  rw [mdnsConvertNameToDns, if_neg h.text_ne_nil, Nat.min_self]
  dsimp only
  rw [if_pos hlength]
  have htext : h.text.length = (dotted (h.labels.map Label.chars)).length := rfl
  rw [← htext] at hlabels
  rw [hlabels, h.labels_length]

end Convert

/-! ## The packet -/

section Packet

variable {m : Nat → UInt8}

theorem stored_append (a b : List (Nat × UInt8)) :
    stored m (a ++ b) = stored (stored m a) b := List.foldl_append

theorem stored_of_not_mem {stores : List (Nat × UInt8)} {i : Nat} (h : ∀ w ∈ stores, w.1 ≠ i) :
    stored m stores i = m i := by
  induction stores generalizing m with
  | nil => rfl
  | cons w stores ih =>
    obtain ⟨hw, hstores⟩ := List.forall_mem_cons.mp h
    have hhead : stored m (w :: stores) = stored (Function.update m w.1 w.2) stores := rfl
    rw [hhead, ih hstores, Function.update_of_ne (Ne.symm hw)]

theorem storesAt_range {p : Nat} {l : List UInt8} :
    ∀ w ∈ storesAt p l, p ≤ w.1 ∧ w.1 < p + l.length := by
  induction l generalizing p with
  | nil =>
    intro w hw
    cases hw
  | cons c l ih =>
    intro w hw
    rw [List.length_cons]
    rcases List.mem_cons.mp hw with rfl | hw
    · exact ⟨Nat.le_refl _, by lia⟩
    · have hrange := ih w hw
      lia

theorem slice_storesAt (p : Nat) (l : List UInt8) :
    slice (stored m (storesAt p l)) p l.length = l := by
  induction l generalizing p m with
  | nil => rfl
  | cons c l ih =>
    have hhead : stored m (storesAt p (c :: l))
        = stored (Function.update m p c) (storesAt (p + 1) l) := rfl
    have hfirst : stored (Function.update m p c) (storesAt (p + 1) l) p = c := by
      rw [stored_of_not_mem fun w hw => by have := (storesAt_range w hw).1; omega,
        Function.update_self]
    rw [hhead, List.length_cons, slice_succ, hfirst, ih]

theorem packet_cells (h : HostName) (m : Nat → UInt8) :
    slice (stored m (mdnsConvertNameToDns h.text h.text.length).2) 0 (encodeLabels h.labels).length
        = encodeLabels h.labels ∧
      stored m (mdnsConvertNameToDns h.text h.text.length).2 (encodeLabels h.labels).length
        = m (encodeLabels h.labels).length := by
  have hlength := h.labels_length
  have htext : 0 < h.text.length := List.length_pos_iff.mpr h.text_ne_nil
  rw [convert_eq]
  dsimp only
  constructor
  · have hfar : slice (stored m (storesAt 0 (encodeLabels h.labels)
        ++ [(h.text.length + 1 + (h.text.length + 1), 0)])) 0 (encodeLabels h.labels).length
        = slice (stored m (storesAt 0 (encodeLabels h.labels))) 0 (encodeLabels h.labels).length := by
      refine slice_congr fun j hj => ?_
      rw [stored_append]
      refine stored_of_not_mem fun w hw => ?_
      rw [List.mem_singleton.mp hw]
      show h.text.length + 1 + (h.text.length + 1) ≠ 0 + j
      lia
    rw [hfar, slice_storesAt]
  · refine stored_of_not_mem fun w hw => ?_
    rcases List.mem_append.mp hw with hw | hw
    · have hrange := storesAt_range w hw
      lia
    · rw [List.mem_singleton.mp hw]
      show h.text.length + 1 + (h.text.length + 1) ≠ _
      lia

/-- `sizeof(querybuf)` in `mdns_send_query`. -/
abbrev sizeofQuerybuf : Nat := 256

theorem query_inside_iff (h : HostName) (queryType : UInt8) :
    (∀ w ∈ (mdnsCreateQueryPacket h.text queryType).2, w.1 < sizeofQuerybuf)
      ↔ h.text.length ≤ 120 := by
  have hheader : queryHeader.length = 12 := rfl
  have hsize : sizeofQuerybuf = 256 := rfl
  have hlength := h.labels_length
  have hpos := List.length_pos_iff.mpr h.text_ne_nil
  rw [mdnsCreateQueryPacket, convert_eq]
  dsimp only
  constructor
  · intro hinside
    have hzero := hinside (queryHeader.length + (h.text.length + 1 + (h.text.length + 1)), 0)
      (by simp)
    dsimp only at hzero
    lia
  · intro hle w hw
    rcases List.mem_append.mp hw with hw | hw
    · rcases List.mem_append.mp hw with hw | hw
      · have hrange := (List.of_mem_zip (a := w.1) (b := w.2) hw).1
        rw [List.mem_range'_1] at hrange
        lia
      · obtain ⟨v, hv, rfl⟩ := List.mem_map.mp hw
        show queryHeader.length + v.1 < sizeofQuerybuf
        rcases List.mem_append.mp hv with hv | hv
        · have hrange := storesAt_range v hv
          lia
        · rw [List.mem_singleton.mp hv]
          dsimp only
          lia
    · simp only [List.mem_cons, List.not_mem_nil, or_false] at hw
      rcases hw with rfl | rfl | rfl | rfl <;> dsimp only <;> lia

end Packet

/-! ## Reading -/

section Read

variable {response : Nat → UInt8}

theorem Label.size (l : Label) : l.chars.length.toUInt8.toNat = l.chars.length := by
  have hle := l.length_le
  rw [Nat.toUInt8, UInt8.toNat_ofNat_of_lt' (by simp only [UInt8.size]; omega)]

def dots (ls : List Label) : List UInt8 := ls.flatMap fun l => l.chars ++ [dot]

theorem dots_eq {ls : List Label} (hls : ls ≠ []) :
    dots ls = dotted (ls.map Label.chars) ++ [dot] := by
  induction ls with
  | nil => exact absurd rfl hls
  | cons l ls ih =>
    cases ls with
    | nil => simp [dots, dotted]
    | cons k ls =>
      have hdots : dots (l :: k :: ls) = l.chars ++ dot :: dots (k :: ls) := by simp [dots]
      have hdotted : dotted ((l :: k :: ls).map Label.chars)
          = l.chars ++ dot :: dotted ((k :: ls).map Label.chars) := rfl
      rw [hdots, hdotted, ih (List.cons_ne_nil k ls)]
      simp

theorem readStep_label (l : Label) {s : Reader}
    (h : slice response s.p (l.chars.length + 1) = l.chars.length.toUInt8 :: l.chars) :
    ∃ buf, readStep response s = .inl ⟨s.p + (l.chars.length + 1), s.name + (l.chars.length + 1), buf⟩
      ∧ slice buf 0 (s.name + (l.chars.length + 1))
        = slice s.buf 0 s.name ++ (l.chars ++ [dot]) := by
  have hle := l.length_le
  have hpos := List.length_pos_iff.mpr l.nonempty
  rw [slice_succ] at h
  obtain ⟨hsize, hchars⟩ := List.cons.inj h
  have hsize' : (response s.p).toNat = l.chars.length := by rw [hsize, l.size]
  have hzero : l.chars.length ≠ 0 := Nat.pos_iff_ne_zero.mp hpos
  have hplain : ¬ 0xC0 ≤ l.chars.length := by omega
  refine ⟨Function.update (blit s.buf s.name (fun j => response (s.p + 1 + j)) l.chars.length)
    (s.name + l.chars.length) dot, ?_, ?_⟩
  · rw [readStep]
    simp only [hsize', if_neg hzero, if_neg hplain]
    congr 2
    omega
  · have hcopied : slice (fun j => response (s.p + 1 + j)) 0 l.chars.length = l.chars := by
      refine (slice_congr fun j _ => ?_).trans hchars
      rw [Nat.zero_add]
    rw [← Nat.add_assoc, slice_concat, Nat.zero_add, Function.update_self]
    have hbefore : slice (Function.update (blit s.buf s.name (fun j => response (s.p + 1 + j))
        l.chars.length) (s.name + l.chars.length) dot) 0 (s.name + l.chars.length)
        = slice (blit s.buf s.name (fun j => response (s.p + 1 + j)) l.chars.length) 0
          (s.name + l.chars.length) :=
      slice_congr fun j hj => Function.update_of_ne (by omega) _ _
    rw [hbefore, slice_add, Nat.zero_add, slice_blit_self, hcopied,
      slice_blit_of_disjoint (.inl (by omega)), List.append_assoc]

theorem rounds_labels (ls : List Label) (n : Nat) {s : Reader}
    (h : slice response s.p (encodeLabels ls).length = encodeLabels ls) :
    ∃ buf, rounds (readStep response) (ls.length + n) s
        = rounds (readStep response) n
          ⟨s.p + (encodeLabels ls).length, s.name + (encodeLabels ls).length, buf⟩ ∧
      slice buf 0 (s.name + (encodeLabels ls).length) = slice s.buf 0 s.name ++ dots ls := by
  induction ls generalizing s with
  | nil => exact ⟨s.buf, by simp [encodeLabels], by simp [encodeLabels, dots]⟩
  | cons l ls ih =>
    have hencode : encodeLabels (l :: ls)
        = (l.chars.length.toUInt8 :: l.chars) ++ encodeLabels ls := by
      simp [encodeLabels]
    rw [hencode, List.length_append, List.length_cons, slice_add] at h
    obtain ⟨hlabel, hrest⟩ := List.append_inj h (by simp)
    obtain ⟨buf, hstep, hbuf⟩ := readStep_label l hlabel
    obtain ⟨buf', hrounds, hbuf'⟩ := ih (s := ⟨_, _, buf⟩) hrest
    refine ⟨buf', ?_, ?_⟩
    · rw [List.length_cons, Nat.add_right_comm, rounds, hstep]
      dsimp only
      dsimp only at hrounds
      rw [hrounds, hencode, List.length_append, List.length_cons]
      simp only [Nat.add_assoc]
    · have hdots : dots (l :: ls) = l.chars ++ [dot] ++ dots ls := by simp [dots]
      rw [hencode, List.length_append, List.length_cons, ← Nat.add_assoc, hbuf', hbuf, hdots,
        List.append_assoc]

theorem lt_of_rounds {n : Nat} {s s' : Reader}
    (h : rounds (readStep response) n s = .inr (some s')) : s.p < s'.p := by
  induction n generalizing s with
  | zero => cases h
  | succ n ih =>
    rw [rounds, readStep] at h
    by_cases hzero : (response s.p).toNat = 0
    · simp only [if_pos hzero] at h
      by_cases hname : s.name = 0
      · rw [if_pos hname] at h
        cases h
      · rw [if_neg hname] at h
        cases h
        exact Nat.lt_succ_self _
    · simp only [if_neg hzero] at h
      by_cases hplain : 0xC0 ≤ (response s.p).toNat
      · rw [if_pos hplain] at h
        cases h
        exact Nat.lt_add_of_pos_right Nat.zero_lt_two
      · rw [if_neg hplain] at h
        have hlt := ih h
        dsimp only at hlt
        lia

theorem readsBack_iff (h : HostName)
    (hlabels : slice response 0 (encodeLabels h.labels).length = encodeLabels h.labels) :
    ReadsBack h response ↔ response (encodeLabels h.labels).length = 0 := by
  have hlength := h.labels_length
  have hencoding := h.encoding_length
  constructor
  · intro hreads
    obtain ⟨s, ⟨n, hrounds⟩, hp, -⟩ := hreads fun _ => 0
    obtain ⟨buf, hskip, -⟩ := rounds_labels h.labels n (s := ⟨0, 0, fun _ => 0⟩) hlabels
    have hmore := rounds_add h.labels.length hrounds
    rw [Nat.add_comm, hskip, Nat.zero_add] at hmore
    by_contra hne
    have hsize : (response (encodeLabels h.labels).length).toNat ≠ 0 := fun hz =>
      hne (UInt8.toNat_inj.mp hz)
    -- another round goes at least two bytes further
    cases n with
    | zero => cases hmore
    | succ n =>
      rw [rounds, readStep] at hmore
      simp only [if_neg hsize] at hmore
      by_cases hplain : 0xC0 ≤ (response (encodeLabels h.labels).length).toNat
      · rw [if_pos hplain] at hmore
        cases hmore
        dsimp only at hp
        lia
      · rw [if_neg hplain] at hmore
        have hlt := lt_of_rounds hmore
        dsimp only at hlt
        lia
  · intro hzero buf
    obtain ⟨buf', hskip, hbuf'⟩ := rounds_labels h.labels 1 (s := ⟨0, 0, buf⟩) hlabels
    have hsize : (response (encodeLabels h.labels).length).toNat = 0 := by rw [hzero]; rfl
    have hname : (encodeLabels h.labels).length ≠ 0 := by lia
    rw [Nat.zero_add] at hskip hbuf'
    refine ⟨⟨(encodeLabels h.labels).length + 1, (encodeLabels h.labels).length,
      Function.update buf' ((encodeLabels h.labels).length - 1) 0⟩, ⟨h.labels.length + 1, ?_⟩, ?_, ?_⟩
    · rw [hskip, rounds, readStep]
      simp only [if_pos hsize, if_neg hname]
    · dsimp only
      lia
    · dsimp only
      rw [hlength, slice_zero, List.nil_append, dots_eq h.nonempty, slice_concat] at hbuf'
      have htext := List.append_inj_left' hbuf' rfl
      rw [hlength, Nat.add_sub_cancel, slice_concat, Nat.zero_add, Function.update_self]
      have hbefore : slice (Function.update buf' h.text.length 0) 0 h.text.length
          = slice buf' 0 h.text.length :=
        slice_congr fun j hj => Function.update_of_ne (by lia) _ _
      rw [hbefore, htext]
      rfl

theorem converted_readsBack_iff (h : HostName) (m : Nat → UInt8) :
    ReadsBack h (stored m (mdnsConvertNameToDns h.text h.text.length).2)
      ↔ m (h.text.length + 1) = 0 := by
  obtain ⟨hlabels, hnext⟩ := packet_cells h m
  rw [readsBack_iff h hlabels, hnext, h.labels_length]

/-- The zero byte is never stored where it belongs. -/
theorem not_roundTrip (h : HostName) (m : Nat → UInt8) : ¬ RoundTrip h m := by
  intro hround
  have hinside := hround.inside (h.text.length + 1 + (h.text.length + 1), 0)
    (by rw [convert_eq]; simp)
  rw [h.encoding_length] at hinside
  have hpos := List.length_pos_iff.mpr h.text_ne_nil
  dsimp only at hinside
  omega

def hpLocal : HostName :=
  ⟨[⟨[104, 112], by decide, by decide, by decide, by decide⟩,
    ⟨[108, 111, 99, 97, 108], by decide, by decide, by decide, by decide⟩], by decide, by decide⟩

/-- Its ten bytes end at place 9, and the zero byte is stored at 18. -/
theorem hpLocal_zero_misplaced : ¬ RoundTrip hpLocal fun _ => 0 := by
  intro hround
  have hinside := hround.inside (18, 0) (by decide)
  exact absurd hinside (by decide)

end Read

end Hplip.Discovery
