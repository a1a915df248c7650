import Hplip.Hpcups.Mode10

/-!
# The sentinel of Mode 10 (Mode10.cpp)

The scans of `Mode10::Process` have no bound of their own: they stop at the last
pixel because the sentinel stored there differs from the pixel to its left and
from the seed row's last. The search for the sentinel compares with a counter
that may carry out of 24 bits, while the pixel stored is masked.
-/

namespace Hplip.Hpcups.Mode10

open Loop

section Sentinel

variable (width : Nat) (seed row : Mem)

/-- The pixel stored last differs from the one to its left and from the seed
row's last. -/
def SentinelStored : Prop :=
  ∃ marked, placeSentinel width seed row = some marked ∧
    get3Pixel marked (width - 1) ≠ get3Pixel marked (width - 2) ∧
    get3Pixel marked (width - 1) ≠ get3Pixel seed (width - 1)

/-- The states from which an iteration of the `do` loop starts. -/
inductive Reached : Locals → Prop
  | start {marked : Mem} (h : placeSentinel width seed row = some marked) :
      Reached ⟨marked, 0, kWhite, []⟩
  | next {s s' : Locals} (hs : Reached s)
      (h : iter width seed (get3Pixel row (width - 1)) s = some (.inl s')) : Reached s'

/-- `curPixel` after an iteration, whether it goes on or leaves. -/
def afterIter : Locals ⊕ Locals → Nat :=
  Sum.elim Locals.curPixel Locals.curPixel

/-- No iteration gets stuck at a read above `lastPixel`, none starts above
`lastPixel`, and none ends above `lastPixel + 1`. -/
def ScansInside : Prop :=
  ∀ s, Reached width seed row s → s.curPixel ≤ width - 1 ∧
    Returns (iter width seed (get3Pixel row (width - 1)) s) fun r => afterIter r ≤ width

/-- One step of green carries out of the pixel, and of the pixels to the left
and above one is the last pixel and the other what is left of the sum. -/
def Wraps : Prop :=
  2 ^ 24 ≤ get3Pixel row (width - 1) + 0x100 ∧
    ((get3Pixel row (width - 2) = get3Pixel row (width - 1) ∧
        get3Pixel seed (width - 1) = get3Pixel row (width - 1) + 0x100 - 2 ^ 24) ∨
      (get3Pixel seed (width - 1) = get3Pixel row (width - 1) ∧
        get3Pixel row (width - 2) = get3Pixel row (width - 1) + 0x100 - 2 ^ 24))

instance : Decidable (Wraps width seed row) := by
  unfold Wraps
  infer_instance

variable {width seed row}

/-! ## The pixel that is stored -/

/-- What the counter `v` has gone through since it was the last pixel `real`. -/
structure Searched (left upper real : Nat) (k v : Nat) : Prop where
  counts : v = real + 0x100 * k
  taken : ∀ j < k, left = real + 0x100 * j ∨ upper = real + 0x100 * j

/-- The sentinel is the first value from the last pixel on, in steps of green,
that neither pixel takes; stored without its carry. -/
theorem placeSentinel_pixel {marked : Mem} (hwidth : 2 ≤ width)
    (h : placeSentinel width seed row = some marked) :
    ∃ k v, Searched (get3Pixel row (width - 2)) (get3Pixel seed (width - 1))
        (get3Pixel row (width - 1)) k v ∧
      get3Pixel row (width - 2) ≠ v ∧ get3Pixel seed (width - 1) ≠ v ∧
      get3Pixel marked (width - 1) = v % 2 ^ 24 := by
  have hreal : Masked (get3Pixel row (width - 1)) := get3Pixel_masked _ _
  have hleft : get3Pixel row (width - 2) < 2 ^ 24 := (get3Pixel_masked _ _).1
  have hupper : get3Pixel seed (width - 1) < 2 ^ 24 := (get3Pixel_masked _ _).1
  obtain ⟨hlt, heven⟩ := hreal
  unfold placeSentinel at h
  dsimp only at h
  rw [getPixel_of_lt (by lia)] at h
  simp only [Option.bind_eq_bind, Option.bind_some] at h
  refine loop_exits (fun s : Mem × Nat => SameButLast width row s.1 ∧
      get3Pixel s.1 (width - 1) = s.2 % 2 ^ 24 ∧
      ∃ k, Searched (get3Pixel row (width - 2)) (get3Pixel seed (width - 1))
        (get3Pixel row (width - 1)) k s.2)
    (fun marked => ∃ k v, Searched (get3Pixel row (width - 2)) (get3Pixel seed (width - 1))
        (get3Pixel row (width - 1)) k v ∧
      get3Pixel row (width - 2) ≠ v ∧ get3Pixel seed (width - 1) ≠ v ∧
      get3Pixel marked (width - 1) = v % 2 ^ 24) ?_ ?_ h
  · rintro ⟨m, v⟩ r ⟨hm, hv, k, hk⟩ hr
    have hm : SameButLast width row m := hm
    have hv : get3Pixel m (width - 1) = v % 2 ^ 24 := hv
    have hk : Searched _ _ (get3Pixel row (width - 1)) k v := hk
    rw [getPixel_of_lt (by lia), getPixel_of_lt (by lia), hm.pixels _ (by lia)] at hr
    simp only [Option.bind_some, Nat.sub_sub] at hr
    have hcount := hk.counts
    by_cases htaken : get3Pixel row (width - 2) = v ∨ get3Pixel seed (width - 1) = v
    · rw [if_pos htaken] at hr
      cases hr
      -- a value that is taken is a pixel, so that the counter has not wrapped around
      have hwrap : (v + 0x100) % 2 ^ 32 = v + 0x100 := by lia
      rw [hwrap]
      refine ⟨hm.put (by lia) _, ?_, k + 1, ?_, ?_⟩
      · show get3Pixel (put3Pixel m (width - 1) (v + 0x100)) (width - 1) = (v + 0x100) % 2 ^ 24
        rw [get3Pixel_put3Pixel_self, land_kWhite]
        lia
      · show v + 0x100 = _
        lia
      · intro j hj
        rcases Nat.lt_succ_iff_lt_or_eq.mp hj with hj | rfl
        · exact hk.taken j hj
        · rw [← hcount]
          exact htaken
    · rw [if_neg htaken] at hr
      cases hr
      obtain ⟨hl, hu⟩ := not_or.mp htaken
      exact ⟨k, v, hk, hl, hu, hv⟩
  · refine ⟨⟨fun _ _ => rfl, fun _ _ => rfl⟩, (Nat.mod_eq_of_lt hlt).symm, 0, ?_, ?_⟩
    · show get3Pixel row (width - 1) = _
      lia
    · exact fun j hj => absurd hj (Nat.not_lt_zero j)

theorem Searched.le_two {left upper real k v : Nat} (h : Searched left upper real k v) :
    k ≤ 2 := by
  by_contra hk
  have h0 := h.taken 0 (by lia)
  have h1 := h.taken 1 (by lia)
  have h2 := h.taken 2 (by lia)
  lia

theorem Searched.below {left upper real k v : Nat} (h : Searched left upper real k v)
    (hl : left ≠ v) (hu : upper ≠ v) (hv : v < 2 ^ 24) :
    ¬ (2 ^ 24 ≤ real + 0x100 ∧ (left = real ∨ upper = real)) := by
  rintro ⟨hcarry, hpixel⟩
  have hk : k = 0 := by
    have hcount := h.counts
    clear hpixel hl hu h
    omega
  have hreal : real = v := by rw [h.counts, hk, Nat.mul_zero, Nat.add_zero]
  rcases hpixel with hpixel | hpixel
  · exact hl (hpixel.trans hreal)
  · exact hu (hpixel.trans hreal)

theorem Searched.above {left upper real k v : Nat} (h : Searched left upper real k v)
    (hreal : real < 2 ^ 24) (hv : 2 ^ 24 ≤ v)
    (hbelow : ∀ j < k, real + 0x100 * j < 2 ^ 24) :
    v % 2 ^ 24 = v - 2 ^ 24 ∧ v - 2 ^ 24 < real ∧ (k = 1 ↔ 2 ^ 24 ≤ real + 0x100) := by
  have hsteps := h.le_two
  have hcount := h.counts
  clear h
  obtain rfl | rfl | rfl : k = 0 ∨ k = 1 ∨ k = 2 := by omega
  · exact absurd hv (Nat.not_le.mpr (hcount ▸ hreal))
  · clear hbelow
    refine ⟨by omega, by omega, fun _ => hcount ▸ hv, fun _ => rfl⟩
  · have hone := hbelow 1 (by decide)
    clear hbelow
    refine ⟨by omega, by omega, fun h => absurd h (by decide), fun h => absurd hone (Nat.not_lt.mpr h)⟩

theorem Searched.symm {left upper real k v : Nat} (h : Searched left upper real k v) :
    Searched upper left real k v :=
  ⟨h.counts, fun j hj => (h.taken j hj).symm⟩

theorem Searched.collides {left upper real k v : Nat} (h : Searched left upper real k v)
    (hpos : 0 < k) (hsmall : v - 2 ^ 24 < real) (hone : k = 1 ↔ 2 ^ 24 ≤ real + 0x100)
    (hleft : v - 2 ^ 24 = left) :
    2 ^ 24 ≤ real + 0x100 ∧ upper = real ∧ left = real + 0x100 - 2 ^ 24 := by
  have hne (j : Nat) : left ≠ real + 0x100 * j :=
    Nat.ne_of_lt (Nat.lt_of_lt_of_le (hleft ▸ hsmall) (Nat.le_add_right _ _))
  have hupper : upper = real := (h.taken 0 hpos).resolve_left (hne 0)
  have hk : k = 1 := by
    by_contra hk
    have hsecond := (h.taken 1 (Nat.lt_of_le_of_ne hpos (Ne.symm hk))).resolve_left (hne 1)
    omega
  refine ⟨hone.mp hk, hupper, ?_⟩
  rw [← hleft, h.counts, hk]

theorem SentinelStored.iff (hwidth : 2 ≤ width) :
    SentinelStored width seed row ↔ ¬ Wraps width seed row := by
  obtain ⟨marked, hmarked, hsame⟩ := placeSentinel_returns hwidth seed row
  obtain ⟨k, v, hk, hl, hu, hstored⟩ := placeSentinel_pixel hwidth hmarked
  have hcount := hk.counts
  have hlast : get3Pixel row (width - 1) < 2 ^ 24 := (get3Pixel_masked _ _).1
  have hleft : get3Pixel row (width - 2) < 2 ^ 24 := (get3Pixel_masked _ _).1
  have hupper : get3Pixel seed (width - 1) < 2 ^ 24 := (get3Pixel_masked _ _).1
  have hiff : SentinelStored width seed row ↔
      v % 2 ^ 24 ≠ get3Pixel row (width - 2) ∧ v % 2 ^ 24 ≠ get3Pixel seed (width - 1) := by
    have hprev := hsame.pixels (width - 2) (by lia)
    constructor
    · rintro ⟨marked', hmarked', hdiff⟩
      rw [hmarked] at hmarked'
      cases hmarked'
      rwa [hprev, hstored] at hdiff
    · intro hdiff
      refine ⟨marked, hmarked, ?_⟩
      rwa [hprev, hstored]
  rw [hiff]
  unfold Wraps
  generalize get3Pixel row (width - 1) = real at *
  generalize get3Pixel row (width - 2) = left at *
  generalize get3Pixel seed (width - 1) = upper at *
  rcases Nat.lt_or_ge v (2 ^ 24) with hv | hv
  · have hnot := hk.below hl hu hv
    rw [Nat.mod_eq_of_lt hv]
    refine iff_of_true ⟨hl.symm, hu.symm⟩ fun ⟨hcarry, hpixels⟩ => hnot ⟨hcarry, ?_⟩
    exact hpixels.imp And.left And.left
  · -- only the first step can carry onto a pixel that was not yet met
    have hbelow : ∀ j < k, real + 0x100 * j < 2 ^ 24 := fun j hj =>
      (hk.taken j hj).elim (· ▸ hleft) (· ▸ hupper)
    obtain ⟨hmod, hsmall, hone⟩ := hk.above hlast hv hbelow
    have hpos : 0 < k := by
      rcases Nat.eq_zero_or_pos k with rfl | hpos
      · exact absurd hv (Nat.not_le.mpr (hcount ▸ hlast))
      · exact hpos
    rw [hmod]
    constructor
    · rintro ⟨hnotLeft, hnotUpper⟩ ⟨hcarry, ⟨-, heq⟩ | ⟨-, heq⟩⟩
      · rw [hcount, hone.mpr hcarry, heq] at hnotUpper
        exact hnotUpper rfl
      · rw [hcount, hone.mpr hcarry, heq] at hnotLeft
        exact hnotLeft rfl
    · intro hwraps
      constructor
      · intro heq
        obtain ⟨hcarry, hreal, heq⟩ := hk.collides hpos hsmall hone heq
        exact hwraps ⟨hcarry, .inr ⟨hreal, heq⟩⟩
      · intro heq
        obtain ⟨hcarry, hreal, heq⟩ := hk.symm.collides hpos hsmall hone heq
        exact hwraps ⟨hcarry, .inl ⟨hreal, heq⟩⟩

/-! ## The scans -/

theorem of_getPixel {m : Mem} {i : Nat} {α : Type} {f : Nat → Option α} {a : α}
    (h : (getPixel width m i >>= f) = some a) : i < width ∧ f (get3Pixel m i) = some a := by
  rw [getPixel, Option.bind_eq_bind, Option.bind_eq_bind, Option.bind_assoc] at h
  exact of_check h

theorem seedScan_lt {p q : Nat} (h : seedScan width seed row p = some q) : q < width := by
  refine loop_exits (fun _ => True) (fun q => q < width) ?_ trivial h
  intro q r _ hr
  obtain ⟨hlt, hr⟩ := of_getPixel hr
  obtain ⟨-, hr⟩ := of_getPixel hr
  split at hr <;> cases hr
  · trivial
  · exact hlt

theorem runScan_lt {rleRun p q : Nat} (h : runScan width row rleRun p = some q) :
    q < width := by
  refine loop_exits (fun _ => True) (fun q => q < width) ?_ trivial h
  intro q r _ hr
  obtain ⟨hlt, hr⟩ := of_getPixel hr
  split at hr <;> cases hr
  · trivial
  · exact hlt

theorem literalScan_le {real : Nat} (hwidth : 1 ≤ width) {s : Nat × Nat} {r : Mem × Nat}
    (h : literalScan width seed row real s = some r) : r.2 ≤ width := by
  refine loop_exits (fun _ => True) (fun r : Mem × Nat => r.2 ≤ width) ?_ trivial h
  intro s r _ hr
  dsimp only at hr
  by_cases hlast : s.1 + 1 = width - 1
  · rw [if_pos hlast] at hr
    cases hr
    show s.1 + 1 + 1 ≤ width
    lia
  · rw [if_neg hlast] at hr
    obtain ⟨hlt, hr⟩ := of_getPixel hr
    obtain ⟨-, hr⟩ := of_getPixel hr
    split at hr <;> cases hr
    · trivial
    · show s.1 + 1 ≤ width
      lia

/-! ## The main loop -/

theorem afterIter_again (s : Locals) : afterIter (again width s) = s.curPixel := by
  unfold again
  split <;> rfl

theorem lastIter_le {real seedCopy : Nat} {s : Locals} {r : Locals ⊕ Locals}
    (hs : s.curPixel < width) (h : lastIter width seed real seedCopy s = some r) :
    afterIter r ≤ width := by
  obtain ⟨-, h⟩ := of_getPixel h
  split at h
  · cases h
    exact Nat.le_of_lt hs
  · obtain ⟨bytes, -, h⟩ := Option.bind_eq_some_iff.mp h
    cases h
    rw [afterIter_again]
    exact hs

theorem runIter_le {real seedCopy rleRun q count : Nat} {s : Locals} {r : Locals ⊕ Locals}
    (hq : q < width) (h : runIter width seed real seedCopy rleRun q count s = some r) :
    afterIter r ≤ width := by
  obtain ⟨⟨pixelSource, cached⟩, -, h⟩ := Option.bind_eq_some_iff.mp h
  dsimp only at h
  split at h <;> obtain ⟨bytes, -, h⟩ := Option.bind_eq_some_iff.mp h <;> cases h <;>
    rw [afterIter_again]
  · exact hq
  · exact Nat.le_of_lt hq

theorem literalIter_le {real seedCopy : Nat} {s : Locals} {r : Locals ⊕ Locals}
    (hwidth : 1 ≤ width) (h : literalIter width seed real seedCopy s = some r) :
    afterIter r ≤ width := by
  obtain ⟨-, h⟩ := of_getPixel h
  obtain ⟨-, h⟩ := of_getPixel h
  obtain ⟨-, h⟩ := of_getPixel h
  obtain ⟨-, h⟩ := of_check h
  obtain ⟨-, h⟩ := of_check h
  obtain ⟨⟨pixelSource, cached⟩, -, h⟩ := Option.bind_eq_some_iff.mp h
  obtain ⟨⟨row', q⟩, hscan, h⟩ := Option.bind_eq_some_iff.mp h
  have hq : q ≤ width := literalScan_le hwidth hscan
  obtain ⟨-, h⟩ := of_check h
  obtain ⟨bytes, -, h⟩ := Option.bind_eq_some_iff.mp h
  cases h
  rw [afterIter_again]
  exact hq

theorem iter_le {real : Nat} {s : Locals} {r : Locals ⊕ Locals} (hwidth : 1 ≤ width)
    (h : iter width seed real s = some r) : afterIter r ≤ width := by
  obtain ⟨q, hq, h⟩ := Option.bind_eq_some_iff.mp h
  have hlt := seedScan_lt hq
  obtain ⟨-, h⟩ := of_check h
  dsimp only at h
  split at h
  · exact lastIter_le hlt h
  · obtain ⟨-, h⟩ := of_check h
    obtain ⟨-, h⟩ := of_getPixel h
    obtain ⟨stop, hstop, h⟩ := Option.bind_eq_some_iff.mp h
    split at h
    · exact runIter_le (runScan_lt hstop) h
    · obtain ⟨-, h⟩ := of_check h
      exact literalIter_le hwidth h

theorem Reached.inv (hwidth : 2 ≤ width) (hok : SentinelOk width seed row) {s : Locals}
    (h : Reached width seed row s) : ∃ marked, Marked width seed row marked ∧
      Inv width seed row marked s := by
  induction h with
  | start hmarked =>
    have hmarked' := (placeSentinel_spec hwidth hok).of_eq_some hmarked
    exact ⟨_, hmarked', rfl, Nat.zero_le _, .nil blank, Nat.le_refl 0⟩
  | next _ hiter ih =>
    obtain ⟨marked, hmarked, hinv⟩ := ih
    have hgoes := (iter_spec hinv hmarked).of_eq_some hiter
    exact ⟨marked, hmarked, hgoes.1⟩

theorem SentinelStored.ok (hwidth : 2 ≤ width) (h : SentinelStored width seed row) :
    SentinelOk width seed row := by
  intro marked hmarked
  obtain ⟨marked', hmarked', hleft, hupper⟩ := h
  have hsame := (placeSentinel_returns hwidth seed row).of_eq_some hmarked
  rw [hmarked] at hmarked'
  cases hmarked'
  rw [hsame.pixels (width - 2) (by lia)] at hleft
  exact ⟨hleft, hupper⟩

theorem SentinelStored.scansInside (hwidth : 2 ≤ width) (h : SentinelStored width seed row) :
    ScansInside width seed row := by
  intro s hs
  obtain ⟨marked, hmarked, hinv⟩ := hs.inv hwidth (h.ok hwidth)
  obtain ⟨r, hr, -⟩ := iter_spec hinv hmarked
  exact ⟨hinv.le, r, hr, iter_le (by omega) hr⟩

/-- **The sentinel.** The pixel stored last is neither of its two neighbours, and
no scan leaves the row, exactly if the search does not carry onto the third pixel. -/
theorem sentinel_kept_iff (width : Nat) (hwidth : 2 ≤ width) (seed row : Mem) :
    (SentinelStored width seed row ∧ ScansInside width seed row) ↔ ¬ Wraps width seed row := by
  constructor
  · rintro ⟨hstored, -⟩
    exact (SentinelStored.iff hwidth).mp hstored
  · intro hwraps
    have hstored := (SentinelStored.iff hwidth).mpr hwraps
    exact ⟨hstored, hstored.scansInside hwidth⟩

/-- Two white pixels below two white ones: the sentinel is one step of green away. -/
theorem sentinel_kept_white : SentinelStored 2 (fun _ => 0xFE) (fun _ => 0xFE) ∧
    ScansInside 2 (fun _ => 0xFE) (fun _ => 0xFE) :=
  (sentinel_kept_iff 2 (Nat.le_refl 2) _ _).mpr (by decide)

def whiteBlue : Mem := fun i => if i = 3 ∨ i = 4 then 0 else 0xFF

/-- Two white pixels below them: white and one step of green is stored as blue,
and the copy of the seed row runs past the end of the row. -/
theorem sentinel_lost_blue : ¬ (SentinelStored 2 whiteBlue (fun _ => 0xFF) ∧
      ScansInside 2 whiteBlue (fun _ => 0xFF)) ∧
    ¬ ScansInside 2 whiteBlue (fun _ => 0xFF) := by
  have hput : placeSentinel 2 whiteBlue (fun _ => 0xFF)
      = some (put3Pixel (fun _ => 0xFF) 1 0x10000FE) := rfl
  have hscan : ¬ ScansInside 2 whiteBlue (fun _ => 0xFF) := by
    intro h
    obtain ⟨-, r, hr, -⟩ := h _ (.start hput)
    unfold iter at hr
    obtain ⟨q, hq, -⟩ := Option.bind_eq_some_iff.mp hr
    have hstuck : seedScan 2 whiteBlue (put3Pixel (fun _ => 0xFF) 1 0x10000FE) 0 = none := rfl
    rw [hstuck] at hq
    cases hq
  exact ⟨fun h => hscan h.2, hscan⟩

end Sentinel

end Hplip.Hpcups.Mode10
