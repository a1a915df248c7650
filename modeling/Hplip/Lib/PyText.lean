import Mathlib.Data.List.DropRight

/-!
# Texts in Python

A text is a list of characters. Which of them are blanks depends on the version, and on whether it
is a text of bytes: only that a space is one is fixed.
-/

namespace PyText

structure Blanks where
  is : Char → Bool
  space : is ' ' = true

def Blanks.ascii : Blanks where
  is c := c = ' ' ∨ '\t' ≤ c ∧ c ≤ '\r'
  space := rfl

/-- `s.split()` -/
def words (b : Blanks) (s : List Char) : List (List Char) :=
  (s.splitOnP b.is).filter (· ≠ [])

/-- `s.strip()` -/
def strip (b : Blanks) (s : List Char) : List Char := (s.dropWhile b.is).rdropWhile b.is

/-- `s.ljust(width)` -/
def ljust (width : Nat) (s : List Char) : List Char := s ++ List.replicate (width - s.length) ' '

/-- `s.rjust(width)` -/
def rjust (width : Nat) (s : List Char) : List Char := List.replicate (width - s.length) ' ' ++ s

/-- `s.center(width)`: of an odd number of spaces, one more stands in front where `width` is odd. -/
def center (width : Nat) (s : List Char) : List Char :=
  let marg := width - s.length
  let left := marg / 2 + marg % 2 * (width % 2)
  List.replicate left ' ' ++ (s ++ List.replicate (marg - left) ' ')

/-- The zeros in the scripts of Unicode; the other nine digits follow each of them. -/
def zeros : List Nat :=
  [0x30, 0x660, 0x6f0, 0x7c0, 0x966, 0x9e6, 0xa66, 0xae6, 0xb66, 0xbe6, 0xc66, 0xce6, 0xd66, 0xde6,
    0xe50, 0xed0, 0xf20, 0x1040, 0x1090, 0x17e0, 0x1810, 0x1946, 0x19d0, 0x1a80, 0x1a90, 0x1b50,
    0x1bb0, 0x1c40, 0x1c50, 0xa620, 0xa8d0, 0xa900, 0xa9d0, 0xa9f0, 0xaa50, 0xabf0, 0xff10, 0x104a0,
    0x10d30, 0x11066, 0x110f0, 0x11136, 0x111d0, 0x112f0, 0x11450, 0x114d0, 0x11650, 0x116c0,
    0x11730, 0x118e0, 0x11950, 0x11c50, 0x11d50, 0x11da0, 0x16a60, 0x16ac0, 0x16b50, 0x1d7ce,
    0x1d7d8, 0x1d7e2, 0x1d7ec, 0x1d7f6, 0x1e140, 0x1e2f0, 0x1e950, 0x1fbf0]

def digit (c : Char) : Option Nat :=
  (zeros.find? fun z => decide (z ≤ c.toNat) && decide (c.toNat < z + 10)).map (c.toNat - ·)

theorem digit_lt {c : Char} {d : Nat} (h : digit c = some d) : d < 10 := by
  obtain ⟨z, hz, rfl⟩ := Option.map_eq_some_iff.mp h
  have hrange := List.find?_some hz
  rw [Bool.and_eq_true, decide_eq_true_iff, decide_eq_true_iff] at hrange
  exact Nat.sub_lt_left_of_lt_add hrange.1 hrange.2

section Words

variable {b : Blanks} {s t w : List Char} {c : Char}

theorem words_nil : words b [] = [] := rfl

theorem words_append_cons (hc : b.is c = true) :
    words b (s ++ c :: t) = words b s ++ words b t := by
  rw [words, List.splitOnP_append_cons s t hc, List.filter_append]
  rfl

theorem words_cons (hc : b.is c = true) : words b (c :: t) = words b t :=
  words_append_cons (s := []) hc

theorem words_word (hne : s ≠ []) (hs : ∀ c ∈ s, b.is c = false) : words b s = [s] := by
  rw [words, List.splitOnP_eq_singleton hs, List.filter_singleton, decide_eq_true hne]
  rfl

theorem words_spaces_append (n : Nat) : words b (List.replicate n ' ' ++ s) = words b s := by
  induction n with
  | zero => rfl
  | succ n ih => rw [List.replicate_succ, List.cons_append, words_cons b.space, ih]

theorem words_append_spaces (n : Nat) : words b (s ++ List.replicate n ' ') = words b s := by
  cases n with
  | zero => rw [List.replicate_zero, List.append_nil]
  | succ n =>
    have hspaces := words_spaces_append (b := b) (s := []) n
    rw [List.append_nil] at hspaces
    rw [List.replicate_succ, words_append_cons b.space, hspaces, words_nil, List.append_nil]

theorem of_mem_splitOnP (p : Char → Bool) (hw : w ∈ s.splitOnP p) :
    (∀ c ∈ w, p c = false) ∧ w.length ≤ s.length := by
  induction s generalizing w with
  | nil =>
    rw [List.splitOnP_nil, List.mem_singleton] at hw
    subst hw
    exact ⟨fun _ hc => absurd hc List.not_mem_nil, Nat.le_refl _⟩
  | cons x s ih =>
    rw [List.splitOnP_cons_eq_if_modifyHead] at hw
    obtain ⟨v, vs, hsplit⟩ := List.exists_cons_of_ne_nil (List.splitOnP_ne_nil p s)
    rw [hsplit] at ih hw
    by_cases hx : p x = true
    · rw [if_pos hx, List.mem_cons] at hw
      rcases hw with rfl | hw
      · exact ⟨fun _ hc => absurd hc List.not_mem_nil, Nat.zero_le _⟩
      · exact ⟨(ih hw).1, Nat.le_succ_of_le (ih hw).2⟩
    · rw [if_neg hx, List.modifyHead_cons, List.mem_cons] at hw
      rcases hw with rfl | hw
      · obtain ⟨hclean, hle⟩ := ih List.mem_cons_self
        refine ⟨?_, Nat.succ_le_succ hle⟩
        rw [List.forall_mem_cons]
        exact ⟨Bool.eq_false_iff.mpr hx, hclean⟩
      · obtain ⟨hclean, hle⟩ := ih (List.mem_cons_of_mem _ hw)
        exact ⟨hclean, Nat.le_succ_of_le hle⟩

theorem of_mem_words (hw : w ∈ words b s) : w ≠ [] ∧ ∀ c ∈ w, b.is c = false := by
  rw [words, List.mem_filter] at hw
  exact ⟨of_decide_eq_true hw.2, (of_mem_splitOnP b.is hw.1).1⟩

theorem length_le_of_mem_words (hw : w ∈ words b s) : w.length ≤ s.length := by
  rw [words, List.mem_filter] at hw
  exact (of_mem_splitOnP b.is hw.1).2

end Words

section Filled

variable {b : Blanks} {s : List Char} {width : Nat}

theorem length_ljust : (ljust width s).length = max s.length width := by
  rw [ljust, List.length_append, List.length_replicate, Nat.add_comm, Nat.sub_add_eq_max,
    Nat.max_comm]

theorem length_rjust : (rjust width s).length = max s.length width := by
  rw [rjust, List.length_append, List.length_replicate, Nat.sub_add_eq_max, Nat.max_comm]

theorem length_center : (center width s).length = max s.length width := by
  simp only [center, List.length_append, List.length_replicate]
  have hmod : (width - s.length) % 2 * (width % 2) ≤ (width - s.length) % 2 := by
    have hle : width % 2 ≤ 1 := Nat.le_of_lt_succ (Nat.mod_lt _ Nat.two_pos)
    exact (Nat.mul_le_mul_left _ hle).trans_eq (Nat.mul_one _)
  omega

theorem words_ljust : words b (ljust width s) = words b s := words_append_spaces _

theorem words_rjust : words b (rjust width s) = words b s := words_spaces_append _

theorem words_center : words b (center width s) = words b s := by
  rw [center, words_spaces_append, words_append_spaces]

end Filled

end PyText
