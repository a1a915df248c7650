import Hplip.Lib.NumberedKeys
import Hplip.Lib.PyInt

/-!
# XML to a dictionary (base/utils.py)

`XMLToDictParser` is called for the start and the end of every element and for its text, which may
come in pieces. It keeps the names of the open elements, and puts every value under these names,
with a number where there are several.
-/

namespace Hplip.XmlDict

open PyText NumberedKeys

/-! ## The code -/

/-- What texts depend on in a version of Python; `lower` leaves something of every name. -/
structure Python where
  blanks : Blanks
  underscores : Bool
  lower : List Char → List Char
  lower_ne : ∀ s, s ≠ [] → lower s ≠ []

inductive Value where
  | int (n : Int)
  | text (s : List Char)
  deriving DecidableEq

structure Parser where
  stack : List (List Char)
  data : Dict (List Char) Value
  lastStart : List Char

def Parser.init : Parser := ⟨[], ∅, []⟩

/-- `int(data)`, and the text itself where this raises `ValueError`. -/
def value (p : Python) (data : List Char) : Value :=
  match int p.blanks p.underscores data with
  | some n => .int n
  | none => .text data

/-- `stack_str`, and with numbers behind a hyphen. -/
def nameOf (stack : List (List Char)) : Name (List Char) where
  plain := ['-'].intercalate stack
  nth j := ['-'].intercalate stack ++ '-' :: decimal j
  nth_inj i j h := decimal_inj (List.cons.inj (List.append_cancel_left h)).2
  nth_ne j h := by
    have hlen := congrArg List.length h
    rw [List.length_append, List.length_cons] at hlen
    lia

/-- The keys that are looked at and set are those of `NumberedKeys.add`. -/
def addData (p : Python) (q : Parser) (data : List Char) : Parser :=
  { q with lastStart := [], data := add q.data (nameOf q.stack) (value p data) }

def startElement (p : Python) (q : Parser) (name : List Char)
    (attrs : List (List Char × List Char)) : Parser :=
  let q := { q with stack := q.stack ++ [p.lower name], lastStart := p.lower name }
  attrs.foldl (fun q a =>
    -- the value of an attribute stands under its name
    let q := addData p { q with stack := q.stack ++ [p.lower a.1] } a.2
    { q with stack := q.stack.dropLast }) q

def endElement (p : Python) (q : Parser) (name : List Char) : Parser :=
  -- nothing has been added since an element of this name was opened
  let q := if p.lower name = q.lastStart then addData p q [] else q
  { q with stack := q.stack.dropLast }

def charData (p : Python) (q : Parser) (data : List Char) : Parser :=
  let data := strip p.blanks data
  if data ≠ [] ∧ q.stack ≠ [] then addData p q data else q

/-! ## Documents -/

/-- What a document consists of. A text is all that stands between two tags, in the pieces in
which it is delivered. -/
inductive Item where
  | start (name : List Char)
  | attr (name value : List Char)
  | text (pieces : List (List Char))
  | stop (name : List Char)

def step (p : Python) (q : Parser) : Item → Parser
  | .start name => startElement p q name []
  | .attr name value =>
    let q := addData p { q with stack := q.stack ++ [p.lower name] } value
    { q with stack := q.stack.dropLast }
  | .text pieces => pieces.foldl (charData p) q
  | .stop name => endElement p q name

def run (p : Python) (doc : List Item) : Parser := doc.foldl (step p) .init

inductive Before where
  | tag
  | text
  | other
  deriving DecidableEq

/-- Elements are nested, attributes stand behind the start of theirs, and texts inside of elements
and whole. -/
def Nested : List (List Char) → Before → List Item → Prop
  | names, _, [] => names = []
  | names, _, .start name :: items => name ≠ [] ∧ Nested (name :: names) .tag items
  | names, b, .attr _ _ :: items => b = .tag ∧ Nested names .tag items
  | names, b, .text _ :: items => b ≠ .text ∧ names ≠ [] ∧ Nested names .text items
  | names, _, .stop name :: items => names.head? = some name ∧ Nested names.tail .other items

/-! ## What a document says -/

/-- The names of the open elements, whether there has been nothing in the last of them, and the
values so far with their paths. -/
structure Reader where
  path : List (List Char)
  bare : Bool
  found : List (List (List Char) × Value)

def Reader.init : Reader := ⟨[], false, []⟩

/-- The value that an item brings. An element without anything in it has an empty text. -/
def occurrence (p : Python) (r : Reader) : Item → Option (List (List Char) × Value)
  | .start _ => none
  | .attr name v => some (r.path ++ [p.lower name], value p v)
  | .text pieces =>
    let text := strip p.blanks pieces.flatten
    if text = [] then none else some (r.path, value p text)
  | .stop _ => if r.bare then some (r.path, value p []) else none

def Reader.next (p : Python) (r : Reader) (item : Item) : Reader where
  path := match item with
    | .start name => r.path ++ [p.lower name]
    | .stop _ => r.path.dropLast
    | _ => r.path
  bare := match item with
    | .start _ => true
    | .text pieces => r.bare && decide (strip p.blanks pieces.flatten = [])
    | _ => false
  found := r.found ++ (occurrence p r item).toList

def read (p : Python) (doc : List Item) : Reader := doc.foldl (Reader.next p) .init

def values (found : List (List (List Char) × Value)) (path : List (List Char)) : List Value :=
  (found.filter (·.1 = path)).map (·.2)

/-- A dictionary that keeps what was found: under the path itself where it has one value and under
numbers where it has several, no key for two of them, and nothing else. -/
structure Kept (found : List (List (List Char) × Value)) (d : Dict (List Char) Value) : Prop where
  entries : ∀ k v, d.lookup k = some v ↔ ∃ path, Mine (nameOf path) (values found path) k v
  apart : ∀ path path' k v v', path ≠ path' → Mine (nameOf path) (values found path) k v →
    ¬ Mine (nameOf path') (values found path') k v'

/-- **A document that is read without loss**, up to every place of it. -/
def ReadsAll (p : Python) (doc : List Item) : Prop :=
  ∀ k, Kept (read p (doc.take k)).found (run p (doc.take k)).data

def others (found : List (List (List Char) × Value)) (path : List (List Char)) (k : List Char)
    (v : Value) : Prop :=
  ∃ path', path' ≠ path ∧ Mine (nameOf path') (values found path') k v

def OnePiece (p : Python) : Item → Prop
  | .text pieces => (pieces.filter fun s => strip p.blanks s ≠ []).length ≤ 1
  | _ => True

instance (p : Python) : (item : Item) → Decidable (OnePiece p item)
  | .text pieces =>
    inferInstanceAs (Decidable ((pieces.filter fun s => strip p.blanks s ≠ []).length ≤ 1))
  | .start _ | .attr _ _ | .stop _ => .isTrue trivial

/-- **Nothing gets in the way** from some place of a document on: texts come in one piece, and no
other path uses the keys that a value needs and by which the values of its path are counted. -/
def Undisturbed (p : Python) : Reader → List Item → Prop
  | _, [] => True
  | r, item :: items =>
    OnePiece p item
      ∧ (∀ o, occurrence p r item = some o →
        Admits (nameOf o.1) (others r.found o.1) (values r.found o.1).length)
      ∧ Undisturbed p (r.next p item) items

/-! ## Paths -/

section Paths

variable {found : List (List (List Char) × Value)} {path path' : List (List Char)} {v w : Value}
  {d d' : Dict (List Char) Value}

theorem values_append_self (found : List (List (List Char) × Value)) :
    values (found ++ [(path, v)]) path = values found path ++ [v] := by
  rw [values, List.filter_append, List.map_append]
  simp [values]

theorem values_append_ne (h : path' ≠ path) :
    values (found ++ [(path, v)]) path' = values found path' := by
  rw [values, List.filter_append, List.map_append]
  simp [values, h.symm]

theorem others_append : others (found ++ [(path, v)]) path = others found path := by
  funext k x
  refine propext (exists_congr fun path' => and_congr_right fun hne => ?_)
  rw [values_append_ne hne]

theorem Kept.holds (h : Kept found d) (path : List (List Char)) :
    Holds (nameOf path) (values found path) (others found path) d := by
  constructor
  · intro k v
    rw [h.entries]
    constructor
    · rintro ⟨path', hm⟩
      by_cases heq : path' = path
      · exact .inl (heq ▸ hm)
      · exact .inr ⟨path', heq, hm⟩
    · rintro (hm | ⟨path', -, hm⟩)
      · exact ⟨path, hm⟩
      · exact ⟨path', hm⟩
  · rintro k v v' hm ⟨path', hne, hm'⟩
    exact h.apart path path' k v v' hne.symm hm hm'

theorem Kept.append_iff (h : Kept found d) :
    Kept (found ++ [(path, v)]) d'
      ↔ Holds (nameOf path) (values found path ++ [v]) (others found path) d' := by
  constructor
  · intro h'
    have hholds := h'.holds path
    rwa [values_append_self, others_append] at hholds
  · intro h'
    rw [← values_append_self found, ← others_append (v := v)] at h'
    constructor
    · intro k x
      rw [h'.entries]
      constructor
      · rintro (hm | ⟨path', -, hm⟩)
        · exact ⟨path, hm⟩
        · exact ⟨path', hm⟩
      · rintro ⟨path', hm⟩
        by_cases heq : path' = path
        · exact .inl (heq ▸ hm)
        · exact .inr ⟨path', heq, hm⟩
    · intro a b k x x' hne hm hm'
      by_cases ha : a = path
      · subst ha
        exact h'.apart k x x' hm ⟨b, hne.symm, hm'⟩
      by_cases hb : b = path
      · subst hb
        exact h'.apart k x' x hm' ⟨a, hne, hm⟩
      rw [values_append_ne ha] at hm
      rw [values_append_ne hb] at hm'
      exact h.apart a b k x x' hne hm hm'

end Paths

/-! ## Following the calls -/

section Calls

variable {p : Python} {r : Reader} {q : Parser} {names : List (List Char)} {b : Before}
  {item : Item} {items : List Item} {pieces : List (List Char)}

/-- The pieces of a text that are not blank, without the blanks around them. -/
def texts (p : Python) (pieces : List (List Char)) : List (List Char) :=
  (pieces.map (strip p.blanks)).filter (· ≠ [])

def opened (names : List (List Char)) : Item → List (List Char)
  | .start name => name :: names
  | .stop _ => names.tail
  | _ => names

structure Follows (p : Python) (names : List (List Char)) (r : Reader) (q : Parser) : Prop where
  stack : q.stack = r.path
  path : r.path = (names.map p.lower).reverse
  lastStart : q.lastStart = if r.bare then (names.map p.lower).headD [] else []
  names : ∀ name ∈ names, name ≠ []

theorem nested_cons (h : Nested names b (item :: items)) :
    ∃ b', Nested (opened names item) b' items := by
  cases item with
  | start name => exact ⟨_, h.2⟩
  | attr name v => exact ⟨_, h.2⟩
  | text pieces => exact ⟨_, h.2.2⟩
  | stop name => exact ⟨_, h.2⟩

theorem foldl_charData (p : Python) (pieces : List (List Char)) (h : q.stack ≠ []) :
    pieces.foldl (charData p) q
      = { stack := q.stack
          data := ((texts p pieces).map (value p)).foldl
            (fun d v => add d (nameOf q.stack) v) q.data
          lastStart := if texts p pieces = [] then q.lastStart else [] } := by
  induction pieces generalizing q with
  | nil => rfl
  | cons s pieces ih =>
    by_cases hs : strip p.blanks s = []
    · have hcall : charData p q s = q := if_neg fun hand => hand.1 hs
      have htexts : texts p (s :: pieces) = texts p pieces := by
        rw [texts, List.map_cons, List.filter_cons_of_neg (by simpa using hs), texts]
      rw [List.foldl_cons, hcall, ih h, htexts]
    · have hcall : charData p q s = addData p q (strip p.blanks s) := if_pos ⟨hs, h⟩
      have htexts : texts p (s :: pieces) = strip p.blanks s :: texts p pieces := by
        rw [texts, List.map_cons, List.filter_cons_of_pos (by simpa using hs), texts]
      have hstack : (addData p q (strip p.blanks s)).stack = q.stack := rfl
      rw [List.foldl_cons, hcall, ih (hstack ▸ h), htexts, hstack]
      rw [if_neg (List.cons_ne_nil _ _), List.map_cons, List.foldl_cons]
      congr 1
      exact ite_self _

theorem texts_eq_nil : texts p pieces = [] ↔ strip p.blanks pieces.flatten = [] := by
  rw [texts, List.filter_eq_nil_iff, strip_eq_nil, List.forall_mem_flatten, List.forall_mem_map]
  refine forall₂_congr fun s _ => ?_
  rw [← strip_eq_nil]
  simp

theorem texts_singleton {s : List Char} (h : texts p pieces = [s]) :
    strip p.blanks pieces.flatten = s := by
  induction pieces with
  | nil => cases h
  | cons t pieces ih =>
    by_cases ht : strip p.blanks t = []
    · rw [texts, List.map_cons, List.filter_cons_of_neg (by simpa using ht)] at h
      rw [List.flatten_cons, strip_append_left (strip_eq_nil.mp ht)]
      exact ih h
    · rw [texts, List.map_cons, List.filter_cons_of_pos (by simpa using ht)] at h
      have hrest : texts p pieces = [] := (List.cons.inj h).2
      rw [List.flatten_cons, strip_append_right (strip_eq_nil.mp (texts_eq_nil.mp hrest))]
      exact (List.cons.inj h).1

theorem onePiece_text (p : Python) (pieces : List (List Char)) :
    OnePiece p (.text pieces) ↔ (texts p pieces).length ≤ 1 := by
  rw [OnePiece, texts, List.filter_map, List.length_map]
  rfl

def added (p : Python) (r : Reader) : Item → List (List Char) × List Value
  | .start _ => (r.path, [])
  | .attr name v => (r.path ++ [p.lower name], [value p v])
  | .text pieces => (r.path, (texts p pieces).map (value p))
  | .stop _ => (r.path, if r.bare then [value p []] else [])

theorem path_ne_nil (hf : Follows p names r q) (h : names ≠ []) : q.stack ≠ [] := by
  rw [hf.stack, hf.path]
  simpa using h

theorem step_follows (hf : Follows p names r q) (hn : Nested names b (item :: items)) :
    (step p q item).data = (added p r item).2.foldl
        (fun d v => add d (nameOf (added p r item).1) v) q.data
      ∧ Follows p (opened names item) (r.next p item) (step p q item) := by
  cases item with
  | start name =>
    refine ⟨rfl, ?_, ?_, rfl, ?_⟩
    · exact congrArg (· ++ [p.lower name]) hf.stack
    · show r.path ++ [p.lower name] = _
      rw [hf.path, opened, List.map_cons, List.reverse_cons]
    · intro n hmem
      rcases List.mem_cons.mp hmem with rfl | hmem
      · exact hn.1
      · exact hf.names n hmem
  | attr name v =>
    have hdata : (step p q (.attr name v)).data
        = add q.data (nameOf (q.stack ++ [p.lower name])) (value p v) := rfl
    have hstack : (step p q (.attr name v)).stack = q.stack := List.dropLast_concat
    refine ⟨?_, ?_, hf.path, rfl, hf.names⟩
    · rw [hdata, hf.stack]
      rfl
    · rw [hstack, hf.stack]
      rfl
  | text pieces =>
    have hcalls := foldl_charData p pieces (path_ne_nil hf hn.2.1)
    have hstep : step p q (.text pieces) = pieces.foldl (charData p) q := rfl
    rw [hstep, hcalls]
    refine ⟨?_, hf.stack, hf.path, ?_, hf.names⟩
    · rw [hf.stack]
      rfl
    · -- a blank text leaves the mark of an empty element
      show (if texts p pieces = [] then q.lastStart else [])
        = if (r.bare && decide (strip p.blanks pieces.flatten = [])) then _ else []
      rw [hf.lastStart]
      by_cases ht : texts p pieces = []
      · rw [if_pos ht, decide_eq_true (texts_eq_nil.mp ht), Bool.and_true]
        rfl
      · rw [if_neg ht, decide_eq_false (mt texts_eq_nil.mpr ht), Bool.and_false]
        rfl
  | stop name =>
    obtain ⟨rest, rfl⟩ : ∃ rest, names = name :: rest := by
      cases names with
      | nil => cases hn.1
      | cons n rest => exact ⟨rest, by rw [Option.some.inj hn.1]⟩
    have hlast : q.lastStart = if r.bare then p.lower name else [] := hf.lastStart
    have hname : p.lower name ≠ [] := p.lower_ne name (hf.names name List.mem_cons_self)
    -- the mark is the name of the innermost element or empty, which no name is
    have hbare : (p.lower name = q.lastStart) ↔ r.bare = true := by
      rw [hlast]
      by_cases hb : r.bare = true
      · simp [hb]
      · simp [hb, hname]
    have hpath : r.path.dropLast = (rest.map p.lower).reverse := by
      rw [hf.path, List.map_cons, List.reverse_cons, List.dropLast_concat]
    have hstep : step p q (.stop name)
        = { (if p.lower name = q.lastStart then addData p q [] else q)
            with stack := q.stack.dropLast } := by
      show endElement p q name = _
      rw [endElement]
      by_cases hb : p.lower name = q.lastStart
      · rw [if_pos hb]
        rfl
      · rw [if_neg hb]
    rw [hstep]
    refine ⟨?_, congrArg List.dropLast hf.stack, hpath, ?_, fun n hmem =>
      hf.names n (List.mem_cons_of_mem _ hmem)⟩
    · show (if p.lower name = q.lastStart then addData p q [] else q).data
        = (if r.bare then [value p []] else []).foldl (fun d v => add d (nameOf r.path) v) q.data
      by_cases hb : r.bare = true
      · rw [if_pos (hbare.mpr hb), if_pos hb, ← hf.stack]
        rfl
      · rw [if_neg fun h => hb (hbare.mp h), if_neg hb]
        rfl
    · show (if p.lower name = q.lastStart then addData p q [] else q).lastStart = []
      by_cases hb : r.bare = true
      · rw [if_pos (hbare.mpr hb)]
        rfl
      · rw [if_neg fun h => hb (hbare.mp h), hlast, if_neg hb]

theorem added_cases (p : Python) (r : Reader) (item : Item) :
    (occurrence p r item = none ∧ (added p r item).2 = [] ∧ OnePiece p item)
      ∨ ∃ v, occurrence p r item = some ((added p r item).1, v)
        ∧ ((added p r item).2 = [v] ∧ OnePiece p item
          ∨ ¬ OnePiece p item ∧ ∃ u u' us, (added p r item).2 = u :: u' :: us) := by
  cases item with
  | start name => exact .inl ⟨rfl, rfl, trivial⟩
  | attr name v => exact .inr ⟨_, rfl, .inl ⟨rfl, trivial⟩⟩
  | text pieces =>
    have hone := onePiece_text p pieces
    have hsome : texts p pieces ≠ [] → occurrence p r (.text pieces)
        = some (r.path, value p (strip p.blanks pieces.flatten)) := by
      intro ht
      exact if_neg (mt texts_eq_nil.mpr ht)
    match htexts : texts p pieces with
    | [] =>
      rw [htexts] at hone
      refine .inl ⟨if_pos (texts_eq_nil.mp htexts), ?_, hone.mpr (Nat.zero_le 1)⟩
      rw [added, htexts]
      rfl
    | [s] =>
      rw [htexts] at hsome hone
      refine .inr ⟨_, hsome (List.cons_ne_nil _ _), .inl ⟨?_, hone.mpr (Nat.le_refl 1)⟩⟩
      rw [added, htexts, texts_singleton htexts]
      rfl
    | s :: s' :: ss =>
      rw [htexts] at hsome hone
      refine .inr ⟨_, hsome (List.cons_ne_nil _ _), .inr ⟨fun h => ?_, value p s, value p s',
        ss.map (value p), ?_⟩⟩
      · exact absurd (hone.mp h) (by simp)
      · rw [added, htexts]
        rfl
  | stop name =>
    by_cases hb : r.bare = true
    · exact .inr ⟨value p [], if_pos hb, .inl ⟨if_pos hb, trivial⟩⟩
    · exact .inl ⟨if_neg hb, if_neg hb, trivial⟩

/-- **An item** is kept just if it is in one piece and finds its keys free. -/
theorem step_kept (hf : Follows p names r q) (hn : Nested names b (item :: items))
    (h : Kept r.found q.data) :
    Kept (r.next p item).found (step p q item).data
      ↔ OnePiece p item ∧ ∀ o, occurrence p r item = some o →
        Admits (nameOf o.1) (others r.found o.1) (values r.found o.1).length := by
  have hfound : (r.next p item).found = r.found ++ (occurrence p r item).toList := rfl
  rw [hfound, (step_follows hf hn).1]
  rcases added_cases p r item with ⟨hnone, hadd, hone⟩ | ⟨v, hsome, hadd⟩
  · rw [hnone, hadd, Option.toList_none, List.append_nil]
    exact iff_of_true h ⟨hone, nofun⟩
  rcases hadd with ⟨hadd, hone⟩ | ⟨hmany, u, u', us, hadd⟩
  · rw [hsome, hadd, Option.toList_some, h.append_iff]
    refine (holds_add_iff (h.holds _)).trans ?_
    constructor
    · intro ha
      refine ⟨hone, fun o ho => ?_⟩
      rw [← Option.some.inj ho]
      exact ha
    · intro ha
      exact ha.2 _ rfl
  · -- more than one piece: they are never one value
    rw [hsome, hadd, Option.toList_some, h.append_iff]
    exact iff_of_false (not_holds_adds (h.holds _) u u' us v) fun hc => hmany hc.1

theorem kept_iff (hf : Follows p names r q) (hn : Nested names b items) (h : Kept r.found q.data) :
    (∀ k, Kept ((items.take k).foldl (Reader.next p) r).found
        ((items.take k).foldl (step p) q).data) ↔ Undisturbed p r items := by
  induction items generalizing names b r q with
  | nil =>
    refine iff_of_true (fun k => ?_) trivial
    rw [List.take_nil]
    exact h
  | cons item items ih =>
    obtain ⟨b', hn'⟩ := nested_cons hn
    have hf' := (step_follows hf hn).2
    -- the place behind the first item, and the places from there on
    rw [Undisturbed, ← and_assoc, ← step_kept hf hn h]
    constructor
    · intro hall
      have hnext := hall 1
      exact ⟨hnext, (ih hf' hn' hnext).mp fun k => hall (k + 1)⟩
    · rintro ⟨hnext, hrest⟩ k
      cases k with
      | zero => exact h
      | succ k => exact (ih hf' hn' hnext).mpr hrest k

end Calls

theorem kept_init : Kept Reader.init.found Parser.init.data := by
  have hmine : ∀ path k v, ¬ Mine (nameOf path) (values [] path) k v := fun _ _ _ => mine_nil
  constructor
  · intro k v
    exact iff_of_false nofun fun ⟨path, hm⟩ => hmine path k v hm
  · intro path _ k v _ _ hm
    exact absurd hm (hmine path k v)

/-- **A document is read without loss**, at every place of it, just if nothing gets in the way: its
texts come in one piece, and no other path uses a key that is needed for a value or looked at. -/
theorem readsAll_iff (p : Python) (doc : List Item) (h : Nested [] .other doc) :
    (ReadsAll p doc ↔ Undisturbed p .init doc)
      ∧ (Undisturbed p .init doc → Kept (read p doc).found (run p doc).data) := by
  have hf : Follows p [] .init .init := ⟨rfl, rfl, rfl, nofun⟩
  have hiff : ReadsAll p doc ↔ Undisturbed p .init doc := kept_iff hf h kept_init
  refine ⟨hiff, fun hu => ?_⟩
  have hall := hiff.mpr hu doc.length
  rwa [List.take_length] at hall

def bytesPython : Python where
  blanks := .ascii
  underscores := false
  lower := List.map Char.toLower
  lower_ne _ hs h := hs (List.map_eq_nil_iff.mp h)

/-- `<R><a>7</a><a>x</a></R>` -/
def twoValues : List Item :=
  [.start ['R'], .start ['a'], .text [['7']], .stop ['a'], .start ['a'], .text [['x']], .stop ['a'],
    .stop ['R']]

theorem twoValues_undisturbed : Undisturbed bytesPython .init twoValues := by
  have hfree : ∀ found path k, (∀ f ∈ found, f.1 = path) → Free (others found path) k := by
    rintro found path k hall v ⟨path', hne, hm⟩
    have hnil : values found path' = [] := by
      rw [values, List.map_eq_nil_iff, List.filter_eq_nil_iff]
      intro f hf heq
      exact hne ((of_decide_eq_true heq).symm.trans (hall f hf))
    rw [hnil] at hm
    exact mine_nil hm
  refine ⟨trivial, nofun, trivial, nofun, by decide, ?_, trivial, nofun, trivial, nofun, by decide,
    ?_, trivial, nofun, trivial, nofun, trivial⟩
  · intro o ho
    rw [← Option.some.inj ho]
    exact ⟨hfree _ _ _ nofun, hfree _ _ _ nofun⟩
  · intro o ho
    rw [← Option.some.inj ho]
    have hall : ∀ f ∈ [([['r'], ['a']], Value.int 7)], f.1 = [['r'], ['a']] := by decide
    exact ⟨hfree _ _ _ hall, hfree _ _ _ hall⟩

theorem readsAll_twoValues :
    Kept (read bytesPython twoValues).found (run bytesPython twoValues).data :=
  (readsAll_iff bytesPython twoValues (by simp [twoValues, Nested])).2 twoValues_undisturbed

/-- `<a>x&amp;y</a>`, whose text comes in three pieces: nothing is stored for `a`. -/
theorem ampersand_splits : ¬ ∀ (p : Python) (doc : List Item), Nested [] .other doc →
    Kept (read p doc).found (run p doc).data := by
  intro h
  have hkept := h bytesPython [.start ['a'], .text [['x'], ['&'], ['y']], .stop ['a']]
    (by simp [Nested])
  have hmine : Mine (nameOf [['a']])
      (values [([['a']], Value.text ['x', '&', 'y'])] [['a']]) ['a'] (.text ['x', '&', 'y']) :=
    ⟨0, by decide, by decide⟩
  have hread : (read bytesPython [.start ['a'], .text [['x'], ['&'], ['y']], .stop ['a']]).found
      = [([['a']], .text ['x', '&', 'y'])] := by decide
  rw [hread] at hkept
  have hsome := (hkept.entries ['a'] (.text ['x', '&', 'y'])).mpr ⟨_, hmine⟩
  exact absurd hsome (by decide)

end Hplip.XmlDict
