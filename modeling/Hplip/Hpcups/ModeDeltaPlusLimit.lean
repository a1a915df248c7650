import Hplip.Hpcups.ModeDeltaPlus

/-!
# The literal limit of DeltaPlus (ModeDeltaPlus.cpp)

A printer buffers the literals of one command, and the file bounds their number
by `LITERAL_LIMIT`. The bound is tested inside the literal loop; the rule for
the end of a row, after the loop, adds one more literal.

- `literalCount`: the number of literals that an iteration encodes;
- `Overlong`: the stretches that end a row with one literal too many;
- `literals_bounded_iff`: over all rows of a strip, the bound is kept exactly
  if no iteration starts before such a stretch.
-/

namespace Hplip.Hpcups.ModeDeltaPlus

open Loop

def literalLimit : Nat := 511

section Row

variable (seed cur : Mem) (w dist : Nat)

/-- `replacement_count` of the literal command of the iteration that starts at
`s`, and `none` if its command is a run. -/
def literalCount (s : Locals) : Option Nat := do
  check (s.col < w)
  let scan ← seedScan seed cur w s.col
  check (scan.col < w)
  let newColor := (predict seed cur w s.newColor scan.col).2
  check (¬ (scan.col + 1 < w ∧ runs cur dist scan.col))
  let lit ← literalScan seed cur w dist newColor (scan.col + 1)
  some lit.count

/-- The row goes on from `s` with pixels of the seed row up to 513 pixels before
its end, and from there on with literals that are never broken. -/
structure Overlong (s : Locals) (c : Nat) : Prop where
  le : s.col ≤ c
  last : c + literalLimit + 2 = w
  copied : ∀ i, s.col ≤ i → i < c → cur i = seed i
  new : cur c ≠ seed c
  not_run : ¬ runs cur dist c
  unbroken : ∀ j < literalLimit,
    ¬ literalBreak seed cur w dist (predict seed cur w s.newColor c).2 (c + 1 + j)

variable {seed cur w dist}

theorem seedScan_maximal {col : Nat} (hcol : col ≤ w) :
    Returns (seedScan seed cur w col) fun s => ∃ k, s = .at col k ∧ col + k ≤ w ∧
      (∀ j < k, cur (col + j) = seed (col + j)) ∧
      (col + k < w → cur (col + k) ≠ seed (col + k)) := by
  have hspec : Returns (seedScan seed cur w col) (SeedScanned seed cur w col) := seedScan_spec hcol
  obtain ⟨s, hs, k, rfl, hk, heq⟩ := hspec
  refine ⟨_, hs, k, rfl, hk, heq, ?_⟩
  -- whichever way the words went, the search ends with the loop over bytes
  unfold seedScan at hs
  obtain ⟨s', -, hbytes⟩ := Option.bind_eq_some_iff.mp hs
  intro hlt hsame
  exact whileDo_exits hbytes ⟨hlt, hsame⟩

theorem literalScan_count (newColor : UInt8) (col : Nat) :
    Returns (literalScan seed cur w dist newColor col) fun s =>
      s.count ≤ literalLimit + 1 ∧ (literalLimit < s.count ↔ col + literalLimit + 1 = w ∧
        ∀ j < literalLimit, ¬ literalBreak seed cur w dist newColor (col + j)) := by
  unfold literalScan
  refine Returns.bind (P := fun s : Scan => ∃ n, s = .at col n ∧ n ≤ literalLimit ∧
      (∀ j < n, ¬ literalBreak seed cur w dist newColor (col + j)) ∧
      (n < literalLimit → col + n + 1 < w →
        literalBreak seed cur w dist newColor (col + n))) ?_ ?_
  · refine (Returns.whileDo (fun s : Scan => ∃ n, s = .at col n ∧ n ≤ literalLimit ∧
        ∀ j < n, ¬ literalBreak seed cur w dist newColor (col + j))
      (fun s : Scan => w - s.col) ?_ (w + 1) _ ⟨0, rfl, Nat.zero_le _, ?_⟩
      (Nat.lt_succ_of_le (Nat.sub_le _ _))).mono ?_
    · rintro _ ⟨n, rfl, hn, hbreak⟩ ⟨hlt, hnext, hlimit⟩
      have hlt : col + n + 1 < w := hlt
      have hnext : ¬ literalBreak seed cur w dist newColor (col + n) := hnext
      have hlimit : ¬ n ≥ literalLimit := hlimit
      refine ⟨⟨n + 1, Scan.advance_at _ _ _, by lia, fun j hj => ?_⟩, ?_⟩
      · rcases Nat.lt_succ_iff_lt_or_eq.mp hj with hj | rfl
        · exact hbreak j hj
        · exact hnext
      · show w - (col + n + 1) < w - (col + n)
        lia
    · exact fun j hj => absurd hj (Nat.not_lt_zero j)
    · rintro _ ⟨⟨n, rfl, hn, hbreak⟩, hexit⟩
      refine ⟨n, rfl, hn, hbreak, fun hlt hroom => ?_⟩
      by_contra hnext
      exact hexit ⟨hroom, hnext, Nat.not_le.mpr hlt⟩
  · rintro _ ⟨n, rfl, hn, hbreak, hstop⟩
    -- the end of the row adds one literal to the `n` of the loop
    refine Returns.ite (fun hlast => ?_) (fun hlast => ?_)
    · have hlast : col + n + 1 = w := hlast
      refine Returns.pure ⟨Nat.succ_le_succ hn, ?_⟩
      show literalLimit < n + 1 ↔ _
      constructor
      · intro hlt
        obtain rfl : n = literalLimit := Nat.le_antisymm hn (Nat.le_of_lt_succ hlt)
        exact ⟨hlast, hbreak⟩
      · rintro ⟨hend, -⟩
        lia
    · have hlast : ¬ col + n + 1 = w := hlast
      refine Returns.pure ⟨Nat.le_succ_of_le hn, ?_⟩
      show literalLimit < n ↔ _
      constructor
      · intro hlt
        exact absurd hlt (Nat.not_lt.mpr hn)
      · rintro ⟨hend, hfree⟩
        -- the loop would have gone on
        have hlt : n < literalLimit := by lia
        exact absurd (hstop hlt (by lia)) (hfree n hlt)

theorem Overlong.start_eq {s : Locals} {c k : Nat} (h : Overlong seed cur w dist s c)
    (heq : ∀ j < k, cur (s.col + j) = seed (s.col + j))
    (hnew : s.col + k < w → cur (s.col + k) ≠ seed (s.col + k)) : c = s.col + k := by
  have hle := h.le
  have hlast := h.last
  rcases Nat.lt_trichotomy c (s.col + k) with hlt | heq' | hgt
  · -- the copy would not have passed a pixel that is new
    have hcopied := heq (c - s.col) (by lia)
    rw [Nat.add_sub_cancel' hle] at hcopied
    exact absurd hcopied h.new
  · exact heq'
  · exact absurd (h.copied _ (Nat.le_add_right _ _) hgt) (hnew (by lia))

theorem literalCount_le_iff {s : Locals} {n : Nat}
    (h : literalCount seed cur w dist s = some n) :
    n ≤ literalLimit ↔ ¬ ∃ c, Overlong seed cur w dist s c := by
  obtain ⟨hcol, h⟩ := of_check h
  obtain ⟨scan, hscan, h⟩ := Option.bind_eq_some_iff.mp h
  obtain ⟨k, rfl, hk, heq, hnew⟩ := (seedScan_maximal (Nat.le_of_lt hcol)).of_eq_some hscan
  obtain ⟨hlt, h⟩ := of_check h
  obtain ⟨hrun, h⟩ := of_check h
  obtain ⟨lit, hlit, h⟩ := Option.bind_eq_some_iff.mp h
  cases h
  have hlt : s.col + k < w := hlt
  obtain ⟨-, hcount⟩ := (literalScan_count _ _).of_eq_some hlit
  rw [← Nat.not_lt, hcount]
  refine not_congr ⟨?_, ?_⟩
  · rintro ⟨hend, hfree⟩
    have hend : s.col + k + 1 + literalLimit + 1 = w := hend
    have hlast : s.col + k + literalLimit + 2 = w := by lia
    refine ⟨s.col + k, Nat.le_add_right _ _, hlast, fun i hi hik => ?_, hnew hlt, ?_, hfree⟩
    · have hcopied := heq (i - s.col) (by lia)
      rwa [Nat.add_sub_cancel' hi] at hcopied
    · intro hr
      exact hrun ⟨by show s.col + k + 1 < w; lia, hr⟩
  · rintro ⟨c, hc⟩
    obtain rfl := hc.start_eq heq hnew
    have hlast := hc.last
    refine ⟨?_, hc.unbroken⟩
    show s.col + k + 1 + literalLimit + 1 = w
    lia

theorem Overlong.literalCount {s : Locals} {c : Nat} (h : Overlong seed cur w dist s c) :
    ∃ n, literalCount seed cur w dist s = some n := by
  have hle := h.le
  have hlast := h.last
  have hcol : s.col < w := by omega
  have hmaximal : Returns (seedScan seed cur w s.col) _ := seedScan_maximal (Nat.le_of_lt hcol)
  obtain ⟨_, hscan, k, rfl, hk, heq, hnew⟩ := hmaximal
  obtain rfl := h.start_eq heq hnew
  have hcount : Returns (literalScan seed cur w dist (predict seed cur w s.newColor (s.col + k)).2
    (s.col + k + 1)) _ := literalScan_count _ _
  obtain ⟨lit, hlit, -⟩ := hcount
  refine ⟨lit.count, ?_⟩
  unfold ModeDeltaPlus.literalCount
  rw [check_pos hcol, hscan]
  simp only [Option.bind_eq_bind, Option.bind_some, Scan.at]
  rw [check_pos (by omega), check_pos (p := ¬ _) (fun hr => h.not_run hr.2), hlit]
  rfl

end Row

/-! ## All rows of a strip -/

section Strip

variable (pbySeedRow : Mem) (outlen : Nat) (inmem : Mem) (rowWidth inheight horzHtDist : Nat)

/-- The states from which `compress` starts an iteration, row by row. -/
inductive Reached : Nat → Locals → Prop
  | start {row : Nat} {newColor : UInt8} {out : List UInt8} (hdist : ¬ horzHtDist > 32)
      (hrow : row < inheight)
      (h : compressRows pbySeedRow inmem rowWidth (if horzHtDist < 1 then 1 else horzHtDist)
        outlen row = some (newColor, out)) : Reached row ⟨0, newColor, out⟩
  | next {row : Nat} {s s' : Locals} (hs : Reached row s)
      (h : iter (seedAt pbySeedRow inmem rowWidth row) (rowAt inmem rowWidth row) rowWidth
        (if horzHtDist < 1 then 1 else horzHtDist) outlen s = some (.inl s')) : Reached row s'

/-- No literal command carries more than the limit beyond its first pixel. -/
def LiteralsBounded : Prop :=
  ∀ row s n, Reached pbySeedRow outlen inmem rowWidth inheight horzHtDist row s →
    literalCount (seedAt pbySeedRow inmem rowWidth row) (rowAt inmem rowWidth row) rowWidth
      (if horzHtDist < 1 then 1 else horzHtDist) s = some n →
    n ≤ literalLimit

/-- No iteration starts before a stretch that ends its row with one literal too many. -/
def NoOverlong : Prop :=
  ∀ row s c, Reached pbySeedRow outlen inmem rowWidth inheight horzHtDist row s →
    ¬ Overlong (seedAt pbySeedRow inmem rowWidth row) (rowAt inmem rowWidth row) rowWidth
      (if horzHtDist < 1 then 1 else horzHtDist) s c

/-- **The literal limit.** A strip keeps it exactly if no iteration starts before
an overlong stretch. -/
theorem literals_bounded_iff :
    LiteralsBounded pbySeedRow outlen inmem rowWidth inheight horzHtDist ↔
      NoOverlong pbySeedRow outlen inmem rowWidth inheight horzHtDist := by
  constructor
  · intro hbound row s c hs hc
    obtain ⟨n, hn⟩ := hc.literalCount
    exact (literalCount_le_iff hn).mp (hbound row s n hs hn) ⟨c, hc⟩
  · intro hfree row s n hs hn
    refine (literalCount_le_iff hn).mpr ?_
    rintro ⟨c, hc⟩
    exact hfree row s c hs hc

end Strip

/-- A row of 513 pixels none of which can be predicted, copied or repeated. -/
def restless : Mem := fun i => UInt8.ofNat (i % 17 + 1)

theorem restless_ne_zero (i : Nat) : restless i ≠ 0 :=
  ofNat_ne (m := 0) (by lia) (by decide) (by lia)

theorem restless_not_run (i : Nat) : ¬ runs restless 16 i := by
  rintro ⟨hle, hsame⟩
  refine ofNat_ne (by lia) (by lia) ?_ hsame
  lia

/-- Below a blank row it is one literal command, of 512 literals beyond the first. -/
theorem literals_unbounded : ¬ LiteralsBounded (fun _ => 0) (2 * 513) restless 513 1 16 := by
  intro h
  have hstart : Reached (fun _ => 0) (2 * 513) restless 513 1 16 0 ⟨0, 0xFF, []⟩ :=
    .start (by decide) (by decide) rfl
  have hrow : rowAt restless 513 0 = restless := by
    funext i
    rw [rowAt, Nat.zero_mul, Nat.zero_add]
  have hlong : Overlong (fun _ => 0) restless 513 16 ⟨0, 0xFF, []⟩ 0 := by
    refine ⟨Nat.le_refl 0, rfl, fun i hi hlt => absurd hlt (Nat.not_lt.mpr hi),
      restless_ne_zero 0, restless_not_run 0, fun j hj => ?_⟩
    rintro (⟨hseed, -⟩ | ⟨-, hrun, -⟩)
    · exact restless_ne_zero _ hseed
    · exact restless_not_run _ hrun
  obtain ⟨n, hn⟩ := hlong.literalCount
  have hn' := hn
  rw [← hrow] at hn'
  exact (literalCount_le_iff hn).mp (h 0 _ n hstart hn') ⟨0, hlong⟩

end Hplip.Hpcups.ModeDeltaPlus
