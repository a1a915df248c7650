import Mathlib.Data.List.Basic
import Mathlib.Data.List.Range

/-!
# Memory regions as functions

A buffer reached through a pointer is a function from offsets to cells, so that
the cells past the end of an allocation exist and hold something. `slice m i k`
is the list of the `k` cells from offset `i`, and `blit` is `memcpy`.
-/

universe u

variable {α : Type u}

/-- The `k` cells of `m` from offset `i`. -/
def slice (m : Nat → α) (i k : Nat) : List α :=
  (List.range k).map fun j => m (i + j)

@[simp] theorem slice_length (m : Nat → α) (i k : Nat) : (slice m i k).length = k := by
  simp [slice]

@[simp] theorem slice_zero (m : Nat → α) (i : Nat) : slice m i 0 = [] := rfl

theorem slice_getElem (m : Nat → α) (i k j : Nat) (h : j < (slice m i k).length) :
    (slice m i k)[j] = m (i + j) := by
  simp [slice]

theorem slice_add (m : Nat → α) (i j k : Nat) :
    slice m i (j + k) = slice m i j ++ slice m (i + j) k := by
  simp [slice, List.range_add, Function.comp_def, Nat.add_assoc]

@[simp] theorem slice_one (m : Nat → α) (i : Nat) : slice m i 1 = [m i] := by
  simp [slice]

theorem slice_succ (m : Nat → α) (i k : Nat) :
    slice m i (k + 1) = m i :: slice m (i + 1) k := by
  rw [Nat.add_comm k 1, slice_add, slice_one]
  rfl

theorem slice_concat (m : Nat → α) (i k : Nat) :
    slice m i (k + 1) = slice m i k ++ [m (i + k)] := by
  rw [slice_add, slice_one]

theorem slice_getElem? (m : Nat → α) (i : Nat) {k j : Nat} (h : j < k) :
    (slice m i k)[j]? = some (m (i + j)) := by
  simp [slice, h]

theorem slice_congr {m m' : Nat → α} {i i' k : Nat}
    (h : ∀ j < k, m (i + j) = m' (i' + j)) : slice m i k = slice m' i' k := by
  refine List.map_congr_left fun j hj => h j ?_
  simpa using hj

theorem slice_eq_iff {m m' : Nat → α} {i i' k : Nat} :
    slice m i k = slice m' i' k ↔ ∀ j < k, m (i + j) = m' (i' + j) := by
  refine ⟨fun h j hj => ?_, slice_congr⟩
  have hget : (slice m i k)[j]? = (slice m' i' k)[j]? := by rw [h]
  simpa [slice, hj] using hget

theorem slice_eq_replicate {m : Nat → α} {i k : Nat} {a : α}
    (h : ∀ j < k, m (i + j) = a) : slice m i k = List.replicate k a := by
  refine List.eq_replicate_iff.mpr ⟨slice_length m i k, fun b hb => ?_⟩
  obtain ⟨j, hj, rfl⟩ := List.mem_map.mp hb
  exact h j (by simpa using hj)

theorem take_drop_slice (m : Nat → α) {i j k n : Nat} (h : j + k ≤ n) :
    ((slice m i n).drop j).take k = slice m (i + j) k := by
  obtain ⟨r, rfl⟩ := Nat.exists_eq_add_of_le h
  rw [Nat.add_assoc, slice_add, List.drop_left' (slice_length ..), slice_add,
    List.take_left' (slice_length ..)]

theorem drop_slice (m : Nat → α) {i j n : Nat} (h : j ≤ n) :
    (slice m i n).drop j = slice m (i + j) (n - j) := by
  have := take_drop_slice m (i := i) (j := j) (k := n - j) (n := n) (by omega)
  rwa [List.take_of_length_le (by simp)] at this

theorem slice_append_slice (m : Nat → α) {j n : Nat} (h : j ≤ n) :
    slice m 0 j ++ slice m j (n - j) = slice m 0 n := by
  obtain ⟨k, rfl⟩ := Nat.exists_eq_add_of_le h
  rw [slice_add, Nat.zero_add, Nat.add_sub_cancel_left]

/-- `memcpy (m + dst, src, n)`. -/
def blit (m : Nat → α) (dst : Nat) (src : Nat → α) (n : Nat) : Nat → α :=
  fun i => if dst ≤ i ∧ i < dst + n then src (i - dst) else m i

@[simp] theorem blit_add (m : Nat → α) (dst : Nat) (src : Nat → α) {n j : Nat}
    (h : j < n) : blit m dst src n (dst + j) = src j := by
  simp [blit, h]

theorem blit_of_not_mem {m : Nat → α} {dst : Nat} {src : Nat → α} {n i : Nat}
    (h : i < dst ∨ dst + n ≤ i) : blit m dst src n i = m i := by
  rw [blit, if_neg (by omega)]

theorem slice_blit_self (m : Nat → α) (dst : Nat) (src : Nat → α) (n : Nat) :
    slice (blit m dst src n) dst n = slice src 0 n :=
  slice_congr fun j hj => by rw [blit_add m dst src hj, Nat.zero_add]

theorem slice_blit_of_disjoint {m : Nat → α} {dst : Nat} {src : Nat → α} {n i k : Nat}
    (h : i + k ≤ dst ∨ dst + n ≤ i) : slice (blit m dst src n) i k = slice m i k :=
  slice_congr fun j hj => blit_of_not_mem (by lia)

/-- The region that holds a list, and `d` behind it. -/
def ofList (l : List α) (d : α) : Nat → α := fun i => l.getD i d

theorem slice_ofList (l : List α) (d : α) : slice (ofList l d) 0 l.length = l := by
  refine List.ext_getElem (slice_length ..) fun i h₁ h₂ => ?_
  rw [slice_getElem, Nat.zero_add, ofList, List.getD_eq_getElem?_getD,
    List.getElem?_eq_getElem h₂, Option.getD_some]

theorem slice_blit_ofList (m : Nat → α) (k : Nat) (l : List α) (d : α) :
    slice (blit m k (ofList l d) l.length) 0 (k + l.length) = slice m 0 k ++ l := by
  rw [slice_add, Nat.zero_add, slice_blit_of_disjoint (by omega), slice_blit_self, slice_ofList]

/-! ## Lines -/

/-- Line `g` of a buffer of lines of `w` cells. -/
def line (m : Nat → α) (w g : Nat) : List α := slice m (g * w) w

theorem slice_eq_lines (m : Nat → α) (w g n : Nat) :
    slice m (g * w) (n * w) = (List.range n).flatMap fun r => line m w (g + r) := by
  induction n with
  | zero => simp
  | succ n ih =>
    rw [Nat.succ_mul, slice_add, ih, List.range_succ, List.flatMap_append, ← Nat.add_mul]
    simp [line]

theorem lines_apart (w : Nat) {g g' : Nat} (h : g ≠ g') :
    g * w + w ≤ g' * w ∨ g' * w + w ≤ g * w := by
  rcases Nat.lt_or_gt_of_ne h with hlt | hgt
  · exact .inl (Nat.succ_mul g w ▸ Nat.mul_le_mul_right w hlt)
  · exact .inr (Nat.succ_mul g' w ▸ Nat.mul_le_mul_right w hgt)

theorem line_blit_of_ne {m : Nat → α} {src : Nat → α} {w k g g' : Nat} (hk : k ≤ w)
    (h : g ≠ g') : line (blit m (g * w) src k) w g' = line m w g' := by
  refine slice_blit_of_disjoint ?_
  rcases lines_apart w h with hle | hle
  · exact .inr (Nat.le_trans (Nat.add_le_add_left hk _) hle)
  · exact .inl hle

theorem line_blit_self (m : Nat → α) (src : Nat → α) {w k : Nat} (g : Nat) (hk : k ≤ w) :
    line (blit m (g * w) src k) w g = slice src 0 k ++ slice m (g * w + k) (w - k) := by
  obtain ⟨j, rfl⟩ := Nat.exists_eq_add_of_le hk
  rw [line, slice_add, slice_blit_self, Nat.add_sub_cancel_left,
    slice_blit_of_disjoint (.inr (Nat.le_refl _))]

theorem line_fill (m : Nat → α) (a : α) (w g n g' : Nat) :
    line (blit m (g * w) (fun _ => a) (n * w)) w g'
      = if g ≤ g' ∧ g' < g + n then List.replicate w a else line m w g' := by
  have hmono : ∀ {i j : Nat}, i ≤ j → i * w ≤ j * w := Nat.mul_le_mul_right w
  by_cases h : g ≤ g' ∧ g' < g + n
  · have hstart := hmono h.1
    have hend := hmono (Nat.succ_le_of_lt h.2)
    rw [Nat.succ_mul, Nat.add_mul] at hend
    rw [if_pos h]
    refine slice_eq_replicate fun j hj => ?_
    rw [blit, if_pos (by lia)]
  · rw [if_neg h]
    refine slice_blit_of_disjoint ?_
    rw [← Nat.add_mul]
    rcases Nat.lt_or_ge g' g with hlt | hge
    · exact .inl (Nat.succ_mul g' w ▸ hmono hlt)
    · exact .inr (hmono (Nat.le_of_not_lt fun hlt => h ⟨hge, hlt⟩))
