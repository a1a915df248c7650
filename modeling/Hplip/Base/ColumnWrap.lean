import Mathlib
import Hplip.Lib.PyText

/-!
# Columns of text (utils.py)

The words of a text are set in lines of one width. A line ends before the first word that does not
fit in it, and a word that is longer than a line is to be cut into pieces.
-/

namespace Hplip.Base

open PyText

/-! ## The code -/

inductive Alignment where
  | left
  | center
  | right

/-- A column. The margin that `getline` puts in front is left out. -/
structure Column where
  width : Nat
  alignment : Alignment

namespace Column

def align (c : Column) (line : List Char) : List Char :=
  match c.alignment with
  | .center => center c.width line
  | .right => rjust c.width line
  | .left => ljust c.width line

/-- `[word[i:i+self.width] for i in range(0, len(word), self.width)]` -/
def pieces (width : Nat) (word : List Char) : List (List Char) :=
  (List.range ((word.length + width - 1) / width)).map fun i => (word.drop (width * i)).take width

def wrapWords (b : Blanks) (c : Column) (text : List Char) : List (List Char) :=
  (words b text).flatMap fun word =>
    if word ≤ (Nat.repr c.width).toList then [word] else pieces c.width word

/-- The loop over the words: `current` is the line that is not at its end yet. -/
def wrapLoop (c : Column) : (current : List Char) → List (List Char) → List (List Char)
  | current, [] => [c.align current]
  | current, word :: words =>
    let increment := 1 + word.length
    if c.width < current.length + increment then c.align current :: wrapLoop c word words
    else wrapLoop c (current ++ ' ' :: word) words

/-- `wrap`: the lines. -/
def wrap (b : Blanks) (c : Column) (text : List Char) : List (List Char) :=
  match wrapWords b c text with
  | [] => []
  | current :: words => wrapLoop c current words

end Column

/-! ## The property -/

def cutWord (width : Nat) (word : List Char) : List (List Char) :=
  if word.length ≤ width then [word] else Column.pieces width word

/-- Lines of the width of the column, with the words of the text in their order. -/
structure FitsColumn (b : Blanks) (c : Column) (text : List Char) : Prop where
  width : ∀ line ∈ c.wrap b text, line.length = c.width
  words : (c.wrap b text).flatMap (words b) = (words b text).flatMap (cutWord c.width)

/-! ## Pieces -/

section Pieces

variable {width n : Nat} {word w : List Char}

theorem of_mem_pieces (hw : 0 < width) {piece : List Char} (h : piece ∈ Column.pieces width word) :
    piece ≠ [] ∧ piece.length ≤ width ∧ ∀ c ∈ piece, c ∈ word := by
  obtain ⟨i, hi, rfl⟩ := List.mem_map.mp h
  have hlt : width * i < word.length := by
    have hmul := Nat.mul_div_le (word.length + width - 1) width
    have hsucc : width * (i + 1) ≤ width * ((word.length + width - 1) / width) :=
      Nat.mul_le_mul_left width (List.mem_range.mp hi)
    rw [Nat.mul_succ] at hsucc
    omega
  refine ⟨?_, List.length_take_le _ _, fun c hc => List.mem_of_mem_drop (List.mem_of_mem_take hc)⟩
  apply List.ne_nil_of_length_pos
  rw [List.length_take, List.length_drop]
  exact Nat.lt_min.mpr ⟨hw, Nat.sub_pos_of_lt hlt⟩

theorem pieces_of_le (hne : word ≠ []) (hle : word.length ≤ width) :
    Column.pieces width word = [word] := by
  have hpos := List.length_pos_of_ne_nil hne
  have hone : (word.length + width - 1) / width = 1 :=
    Nat.div_eq_of_lt_le (by omega) (by omega)
  rw [Column.pieces, hone, List.range_one, List.map_singleton, Nat.mul_zero, List.drop_zero,
    List.take_of_length_le hle]

end Pieces

/-! ## Lines -/

section Lines

variable {b : Blanks} {c : Column} {text current : List Char} {ws : List (List Char)}

theorem length_align (line : List Char) : (c.align line).length = max line.length c.width := by
  rw [Column.align]
  cases c.alignment with
  | left => exact length_ljust
  | center => exact length_center
  | right => exact length_rjust

theorem words_align (line : List Char) : words b (c.align line) = words b line := by
  rw [Column.align]
  cases c.alignment with
  | left => exact words_ljust
  | center => exact words_center
  | right => exact words_rjust

theorem words_wrapLoop (hws : ∀ w ∈ ws, w ≠ [] ∧ ∀ c ∈ w, b.is c = false) :
    (c.wrapLoop current ws).flatMap (words b) = words b current ++ ws := by
  induction ws generalizing current with
  | nil => rw [Column.wrapLoop, List.flatMap_singleton, words_align, List.append_nil]
  | cons w ws ih =>
    rw [List.forall_mem_cons] at hws
    have hw : words b w = [w] := words_word hws.1.1 hws.1.2
    simp only [Column.wrapLoop]
    split
    · rw [List.flatMap_cons, words_align, ih hws.2, hw, List.singleton_append]
    · rw [ih hws.2, words_append_cons b.space, hw, List.append_assoc, List.singleton_append]

theorem length_wrapLoop (hcurrent : current.length ≤ c.width) (hws : ∀ w ∈ ws, w.length ≤ c.width) :
    ∀ line ∈ c.wrapLoop current ws, line.length = c.width := by
  induction ws generalizing current with
  | nil =>
    intro line hline
    rw [List.mem_singleton.mp hline, length_align]
    exact Nat.max_eq_right hcurrent
  | cons w ws ih =>
    rw [List.forall_mem_cons] at hws
    simp only [Column.wrapLoop]
    split
    case isTrue =>
      rw [List.forall_mem_cons, length_align]
      exact ⟨Nat.max_eq_right hcurrent, ih hws.1 hws.2⟩
    case isFalse hfit =>
      apply ih _ hws.2
      rw [List.length_append, List.length_cons, Nat.add_comm w.length]
      exact Nat.le_of_not_lt hfit

theorem of_mem_wrapWords (text : List Char) (hc : 0 < c.width) :
    ∀ w ∈ c.wrapWords b text, w ≠ [] ∧ ∀ c ∈ w, b.is c = false := by
  intro w hw
  obtain ⟨word, hword, hw⟩ := List.mem_flatMap.mp hw
  obtain ⟨hne, hclean⟩ := of_mem_words hword
  split at hw
  · exact List.mem_singleton.mp hw ▸ ⟨hne, hclean⟩
  · obtain ⟨hne, -, hmem⟩ := of_mem_pieces hc hw
    exact ⟨hne, fun x hx => hclean x (hmem x hx)⟩

/-- **The words in the lines** are those that are set, whatever their lengths. -/
theorem words_wrap (hc : 0 < c.width) :
    (c.wrap b text).flatMap (words b) = c.wrapWords b text := by
  have hset := of_mem_wrapWords (b := b) text hc
  rw [Column.wrap]
  cases hws : c.wrapWords b text with
  | nil => rfl
  | cons w ws =>
    rw [hws, List.forall_mem_cons] at hset
    rw [words_wrapLoop hset.2, words_word hset.1.1 hset.1.2, List.singleton_append]

theorem length_wrap (hws : ∀ w ∈ c.wrapWords b text, w.length ≤ c.width) :
    ∀ line ∈ c.wrap b text, line.length = c.width := by
  rw [Column.wrap]
  cases h : c.wrapWords b text with
  | nil => exact fun _ hline => absurd hline List.not_mem_nil
  | cons w ws =>
    rw [h, List.forall_mem_cons] at hws
    exact length_wrapLoop hws.1 hws.2

end Lines

/-! ## Which texts fit -/

/-- **A text fits its column** exactly if none of its words is longer than a line and not behind
the width in the order of texts. -/
theorem fitsColumn_iff (b : Blanks) (c : Column) (text : List Char) (hc : 0 < c.width) :
    FitsColumn b c text ↔
      ∀ word ∈ words b text, word ≤ (Nat.repr c.width).toList → word.length ≤ c.width := by
  constructor
  · intro h word hword hle
    have hset : word ∈ c.wrapWords b text := by
      refine List.mem_flatMap.mpr ⟨word, hword, ?_⟩
      rw [if_pos hle]
      exact List.mem_singleton_self word
    rw [← words_wrap hc] at hset
    obtain ⟨line, hline, hmem⟩ := List.mem_flatMap.mp hset
    exact (length_le_of_mem_words hmem).trans_eq (h.width line hline)
  · intro h
    have hcut : c.wrapWords b text = (words b text).flatMap (cutWord c.width) := by
      refine List.flatMap_congr fun word hword => ?_
      rw [cutWord]
      by_cases hlen : word.length ≤ c.width
      · rw [if_pos hlen, pieces_of_le (of_mem_words hword).1 hlen, ite_self]
      · rw [if_neg hlen, if_neg fun hle => hlen (h word hword hle)]
    refine ⟨length_wrap fun w hw => ?_, (words_wrap hc).trans hcut⟩
    rw [hcut] at hw
    obtain ⟨word, -, hw⟩ := List.mem_flatMap.mp hw
    rw [cutWord] at hw
    split at hw
    case isTrue hlen => exact List.mem_singleton.mp hw ▸ hlen
    case isFalse => exact (of_mem_pieces hc hw).2.1

theorem fitsColumn_iff_short :
    0 < 9 ∧ (FitsColumn .ascii ⟨9, .left⟩ ['p', 'a', 'p', 'e', 'r'] ↔
      ∀ word ∈ words .ascii ['p', 'a', 'p', 'e', 'r'],
        word ≤ (Nat.repr 9).toList → word.length ≤ 9) :=
  ⟨by decide, fitsColumn_iff .ascii ⟨9, .left⟩ _ (by decide)⟩

/-- Three digits stand before the width in the order of texts: they overflow two columns. -/
theorem digits_overflow : ¬ FitsColumn .ascii ⟨2, .left⟩ ['1', '0', '0'] := by
  intro h
  have hwidth : ['1', '0', '0'].length = 2 := h.width _ (by decide)
  exact absurd hwidth (by decide)

end Hplip.Base
