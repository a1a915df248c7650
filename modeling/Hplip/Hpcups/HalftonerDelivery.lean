import Mathlib
import Hplip.Hpcups.Halftoner

/-!
# The order in which the halftoner delivers its layers (Halftoner.cpp)

After `Process` the bit planes are handed on one by one, ink by ink, row by row
and bit plane by bit plane. Three nested counters hold the place, and the
innermost one has already moved on when a raster is returned, which is what
`LastPlane` and `FirstPlane` rely on.
-/

namespace Hplip.Hpcups.Halftoner

open Loop

variable (cfg : Config)

/-! ## Calls -/

/-- `Halftoner::LastPlane`; the row is compared as an `unsigned int`. -/
def lastPlane (s : State) : Prop :=
  s.iColor = cfg.dyeCount + cfg.startPlane - 1 ∧
    s.iRow = (cfg.numRows s.iColor + 2 ^ 32 - 1) % 2 ^ 32 ∧
    s.iPlane = cfg.colorDepth s.iColor

/-- `Halftoner::FirstPlane`. -/
def firstPlane (s : State) : Prop :=
  s.iColor = cfg.startPlane ∧ s.iRow = 0 ∧ s.iPlane = 1

instance (s : State) : Decidable (lastPlane cfg s) := by
  unfold lastPlane
  infer_instance

instance (s : State) : Decidable (firstPlane cfg s) := by
  unfold firstPlane
  infer_instance

/-- The calls that may come between two calls of `Process`. -/
inductive Pull
  | next
  | flush
  | restart
  deriving DecidableEq, Repr

/-- Calls one after another, with what `NextOutputRaster` returns. -/
def pulls (s : State) : List Pull → Option (State × List (Option RasterData))
  | [] => some (s, [])
  | .next :: calls => do
    let (s, raster) ← nextOutputRaster cfg s
    let (s, rasters) ← pulls s calls
    some (s, raster :: rasters)
  | .flush :: calls => pulls (flush cfg s) calls
  | .restart :: calls => pulls (restart cfg s) calls

/-! ## The order of the layers -/

/-- The configurations that the driver sets up. -/
structure Admitted : Prop where
  dyeCount : cfg.dyeCount = 1 ∨ cfg.dyeCount = 3 ∨ cfg.dyeCount = 4 ∨ cfg.dyeCount = 6
  numRows : ∀ i, cfg.Active i → 1 ≤ cfg.numRows i
  colorDepth : ∀ i, cfg.Active i → 1 ≤ cfg.colorDepth i

abbrev Layer := Nat × Nat × Nat

/-- The bit planes of a row from `p` on. -/
def planesFrom (c r p : Nat) : List Layer :=
  (List.range' p (cfg.colorDepth c - p)).map fun p => (c, r, p)

/-- The rows of an ink from `r` on. -/
def rowsFrom (c r : Nat) : List Layer :=
  (List.range' r (cfg.numRows c - r)).flatMap fun r => planesFrom cfg c r 0

/-- The inks from `c` on. -/
def colorsFrom (c : Nat) : List Layer :=
  (List.range' c (cfg.dyeCount + cfg.startPlane - c)).flatMap fun c => rowsFrom cfg c 0

def layers : List Layer := colorsFrom cfg cfg.startPlane

/-- The layers from a place on, which may be behind the last bit plane of a row. -/
def rest (c r p : Nat) : List Layer :=
  planesFrom cfg c r p ++ rowsFrom cfg c (r + 1) ++ colorsFrom cfg (c + 1)

section Order

variable {cfg} {c r p : Nat}

theorem planesFrom_lt (h : p < cfg.colorDepth c) :
    planesFrom cfg c r p = (c, r, p) :: planesFrom cfg c r (p + 1) := by
  unfold planesFrom
  obtain ⟨k, hk⟩ := Nat.exists_eq_add_of_lt h
  rw [show cfg.colorDepth c - p = k + 1 by lia, List.range'_succ,
    show cfg.colorDepth c - (p + 1) = k by lia, List.map_cons]

theorem planesFrom_end : planesFrom cfg c r (cfg.colorDepth c) = [] := by
  rw [planesFrom, Nat.sub_self]
  rfl

theorem rowsFrom_lt (h : r < cfg.numRows c) :
    rowsFrom cfg c r = planesFrom cfg c r 0 ++ rowsFrom cfg c (r + 1) := by
  unfold rowsFrom
  obtain ⟨k, hk⟩ := Nat.exists_eq_add_of_lt h
  rw [show cfg.numRows c - r = k + 1 by lia, List.range'_succ,
    show cfg.numRows c - (r + 1) = k by lia, List.flatMap_cons]

theorem rowsFrom_end : rowsFrom cfg c (cfg.numRows c) = [] := by
  rw [rowsFrom, Nat.sub_self]
  rfl

theorem colorsFrom_lt (h : c < cfg.dyeCount + cfg.startPlane) :
    colorsFrom cfg c = rowsFrom cfg c 0 ++ colorsFrom cfg (c + 1) := by
  unfold colorsFrom
  obtain ⟨k, hk⟩ := Nat.exists_eq_add_of_lt h
  rw [show cfg.dyeCount + cfg.startPlane - c = k + 1 by lia, List.range'_succ,
    show cfg.dyeCount + cfg.startPlane - (c + 1) = k by lia, List.flatMap_cons]

theorem colorsFrom_end : colorsFrom cfg (cfg.dyeCount + cfg.startPlane) = [] := by
  rw [colorsFrom, Nat.sub_self]
  rfl

theorem rest_start (hc : c < cfg.dyeCount + cfg.startPlane) (hrow : 1 ≤ cfg.numRows c) :
    rest cfg c 0 0 = colorsFrom cfg c := by
  rw [rest, colorsFrom_lt hc, rowsFrom_lt hrow]

theorem rest_lt (h : p < cfg.colorDepth c) :
    rest cfg c r p = (c, r, p) :: rest cfg c r (p + 1) := by
  rw [rest, planesFrom_lt h, rest]
  rfl

theorem rest_next_row (h : r + 1 < cfg.numRows c) :
    rest cfg c r (cfg.colorDepth c) = rest cfg c (r + 1) 0 := by
  rw [rest, planesFrom_end, List.nil_append, rowsFrom_lt h, rest]

theorem rest_next_color (h : r + 1 = cfg.numRows c) :
    rest cfg c r (cfg.colorDepth c) = colorsFrom cfg (c + 1) := by
  rw [rest, planesFrom_end, List.nil_append, h, rowsFrom_end, List.nil_append]

end Order

theorem rowsFrom_length (c : Nat) :
    (rowsFrom cfg c 0).length = cfg.numRows c * cfg.colorDepth c := by
  simp [rowsFrom, planesFrom, List.length_flatMap]

theorem layers_length_eq : (layers cfg).length
    = ((List.range' cfg.startPlane cfg.dyeCount).map fun i =>
      cfg.numRows i * cfg.colorDepth i).sum := by
  rw [layers, colorsFrom, List.length_flatMap, Nat.add_sub_cancel]
  simp only [rowsFrom_length]

theorem numRows_inactive {i : Nat} (h : ¬ cfg.Active i) : cfg.numRows i = 0 := if_neg h

theorem layers_length (hadm : Admitted cfg) : (layers cfg).length = cfg.planeCount := by
  rw [layers_length_eq, Config.planeCount]
  have hnone : ∀ i, ¬ cfg.Active i → cfg.numRows i = 0 := fun _ => numRows_inactive cfg
  have hinks : List.range maxColorPlanes = [0, 1, 2, 3, 4, 5] := rfl
  rw [hinks]
  -- the inks behind the last one, and black if it is left out, add nothing
  rcases hadm.dyeCount with h | h | h | h <;>
    simp [Config.Active, Config.startPlane, C, h, List.range'] at hnone ⊢ <;>
    simp [hnone]

/-! ## Seeking -/

structure Place (c r p : Nat) : Prop where
  active : cfg.Active c
  row : r < cfg.numRows c
  plane : p ≤ cfg.colorDepth c

variable {cfg}

theorem seek_rest (hadm : Admitted cfg) {s : State}
    (hplace : Place cfg s.iColor s.iRow s.iPlane) (hready : s.iRastersReady ≠ 0)
    (hrest : rest cfg s.iColor s.iRow s.iPlane ≠ []) :
    ∃ c r p, Place cfg c r p ∧ p < cfg.colorDepth c ∧
      rest cfg c r p = rest cfg s.iColor s.iRow s.iPlane ∧
      seek cfg (cfg.dyeCount + 3) s
        = some ({ s with iColor := c, iRow := r, iPlane := p }, true) := by
  obtain ⟨⟨hstart, hend⟩, hrow, hplane⟩ := hplace
  have hdepth : ∀ i, cfg.Active i → ¬ 0 = cfg.colorDepth i := fun i hi =>
    Nat.ne_of_lt (hadm.colorDepth i hi)
  rcases Nat.lt_or_eq_of_le hplane with hlt | hend'
  · -- there is a bit plane left in the row
    refine ⟨s.iColor, s.iRow, s.iPlane, ⟨⟨hstart, hend⟩, hrow, hplane⟩, hlt, rfl, ?_⟩
    rw [seek, if_neg hready, if_neg (Nat.ne_of_lt hend), if_neg (Nat.ne_of_lt hlt),
      if_neg (Nat.ne_of_lt hrow)]
  rcases Nat.lt_or_eq_of_le (Nat.succ_le_of_lt hrow) with hnext | hlast
  · -- the row is done, and another one follows
    have hnext : s.iRow + 1 < cfg.numRows s.iColor := hnext
    refine ⟨s.iColor, s.iRow + 1, 0, ⟨⟨hstart, hend⟩, hnext, Nat.zero_le _⟩,
      hadm.colorDepth _ ⟨hstart, hend⟩, ?_, ?_⟩
    · rw [hend', rest_next_row hnext]
    · rw [seek, if_neg hready, if_neg (Nat.ne_of_lt hend), if_pos hend']
      rw [seek, if_neg hready, if_neg (Nat.ne_of_lt hend), if_neg (hdepth _ ⟨hstart, hend⟩),
        if_neg (Nat.ne_of_lt hnext)]
  · -- the ink is done; it is not the last one
    have hlast : s.iRow + 1 = cfg.numRows s.iColor := hlast
    have hcolor : s.iColor + 1 < cfg.dyeCount + cfg.startPlane := by
      refine Nat.lt_of_le_of_ne hend fun heq => hrest ?_
      have heq : s.iColor + 1 = cfg.dyeCount + cfg.startPlane := heq
      rw [hend', rest_next_color hlast, heq, colorsFrom_end]
    have hactive : cfg.Active (s.iColor + 1) := ⟨Nat.le_succ_of_le hstart, hcolor⟩
    have hrows := hadm.numRows _ hactive
    refine ⟨s.iColor + 1, 0, 0, ⟨hactive, hrows, Nat.zero_le _⟩,
      hadm.colorDepth _ hactive, ?_, ?_⟩
    · rw [hend', rest_next_color hlast, rest_start hcolor hrows]
    · rw [seek, if_neg hready, if_neg (Nat.ne_of_lt hend), if_pos hend']
      rw [seek, if_neg hready, if_neg (Nat.ne_of_lt hend), if_neg (hdepth _ ⟨hstart, hend⟩),
        if_pos hlast]
      rw [seek, if_neg hready, if_neg (Nat.ne_of_lt hcolor), if_neg (hdepth _ hactive),
        if_neg (Nat.ne_of_lt hrows)]

/-! ## Deliveries -/

section Deliveries

variable {s₀ s : State} {n : Nat}

variable (cfg) in
/-- What holds after `n` deliveries of what `s₀` holds. -/
structure Delivering (s₀ : State) (n : Nat) (s : State) : Prop where
  planes : s.colorPlane = s₀.colorPlane
  counts : s.iRastersReady + n = cfg.planeCount
  delivered : s.iRastersDelivered = n
  place : Place cfg s.iColor s.iRow s.iPlane
  remaining : (layers cfg).drop n = rest cfg s.iColor s.iRow s.iPlane
  /-- The place is the first one, or behind the layer delivered last. -/
  last : (n = 0 ∧ s.iColor = cfg.startPlane ∧ s.iRow = 0 ∧ s.iPlane = 0) ∨
    (1 ≤ n ∧ 1 ≤ s.iPlane ∧ (layers cfg).drop (n - 1)
      = (s.iColor, s.iRow, s.iPlane - 1) :: rest cfg s.iColor s.iRow s.iPlane)

theorem Delivering.start (hadm : Admitted cfg) (s : State) :
    Delivering cfg (ready cfg s) 0 (ready cfg s) := by
  have hlt : cfg.startPlane < cfg.dyeCount + cfg.startPlane := by
    have hdye := hadm.dyeCount
    lia
  have hactive : cfg.Active cfg.startPlane := ⟨Nat.le_refl _, hlt⟩
  have hrows := hadm.numRows _ hactive
  exact ⟨rfl, rfl, rfl, ⟨hactive, hrows, Nat.zero_le _⟩, (rest_start hlt hrows).symm,
    .inl ⟨rfl, rfl, rfl, rfl⟩⟩

theorem Delivering.le (h : Delivering cfg s₀ n s) : n ≤ cfg.planeCount :=
  h.counts ▸ Nat.le_add_left _ _

theorem Delivering.remaining_length (hadm : Admitted cfg) (h : Delivering cfg s₀ n s) :
    (rest cfg s.iColor s.iRow s.iPlane).length = s.iRastersReady := by
  rw [← h.remaining, List.length_drop, layers_length cfg hadm, ← h.counts, Nat.add_sub_cancel]

theorem nextOutputRaster_none (h : s.iRastersReady = 0) :
    nextOutputRaster cfg s = some (s, none) := by
  unfold nextOutputRaster
  rw [seek, if_pos h]
  rfl

theorem Delivering.next (hadm : Admitted cfg) (h : Delivering cfg s₀ n s)
    (hready : s.iRastersReady ≠ 0) :
    ∃ s' raster c r p, nextOutputRaster cfg s = some (s', some raster) ∧
      (layers cfg).drop n = (c, r, p) :: (layers cfg).drop (n + 1) ∧
      raster.rasterdata .color = some (s₀.colorPlane c r p) ∧ Delivering cfg s₀ (n + 1) s' := by
  have hlength := h.remaining_length hadm
  have hne : rest cfg s.iColor s.iRow s.iPlane ≠ [] := by
    intro hnil
    rw [hnil] at hlength
    exact hready hlength.symm
  obtain ⟨c, r, p, hplace, hlt, hrest, hseek⟩ := seek_rest hadm h.place hready hne
  have hdrop : (layers cfg).drop n = (c, r, p) :: rest cfg c r (p + 1) := by
    rw [h.remaining, ← hrest, rest_lt hlt]
  have htail : (layers cfg).drop (n + 1) = rest cfg c r (p + 1) := by
    rw [← List.tail_drop, hdrop, List.tail_cons]
  refine ⟨(deliverLayer cfg { s with iColor := c, iRow := r, iPlane := p }).1,
    (deliverLayer cfg { s with iColor := c, iRow := r, iPlane := p }).2, c, r, p, ?_,
    by rw [htail]; exact hdrop, ?_, ?_, ?_, ?_, ?_, htail, ?_⟩
  · unfold nextOutputRaster
    rw [hseek]
    rfl
  · show some (s.colorPlane c r p) = _
    rw [h.planes]
  · exact h.planes
  · have hcount := h.counts
    show s.iRastersReady - 1 + (n + 1) = cfg.planeCount
    lia
  · show s.iRastersDelivered + 1 = n + 1
    rw [h.delivered]
  · exact ⟨hplace.active, hplace.row, hlt⟩
  · exact .inr ⟨Nat.le_add_left 1 n, Nat.le_add_left 1 p, hdrop⟩

theorem Delivering.restart (h : Delivering cfg s₀ n s) :
    Delivering cfg s₀ n (restart cfg s) :=
  ⟨h.planes, h.counts, h.delivered, h.place, h.remaining, h.last⟩

theorem Delivering.flush (h : Delivering cfg s₀ n s) : Delivering cfg s₀ n (flush cfg s) := by
  unfold Halftoner.flush
  split
  · exact h
  · exact h.restart

theorem rest_eq_nil_iff (hadm : Admitted cfg) {c r p : Nat} (h : Place cfg c r p) :
    rest cfg c r p = [] ↔ c + 1 = cfg.dyeCount + cfg.startPlane ∧ r + 1 = cfg.numRows c ∧
      p = cfg.colorDepth c := by
  obtain ⟨⟨hstart, hend⟩, hrow, hplane⟩ := h
  constructor
  · intro hnil
    have hp : p = cfg.colorDepth c := by
      refine Nat.le_antisymm hplane (Nat.not_lt.mp fun hlt => ?_)
      rw [rest_lt hlt] at hnil
      cases hnil
    subst hp
    have hr : r + 1 = cfg.numRows c := by
      refine Nat.le_antisymm hrow (Nat.not_lt.mp fun hlt => ?_)
      rw [rest_next_row hlt, rest_lt (hadm.colorDepth c ⟨hstart, hend⟩)] at hnil
      cases hnil
    refine ⟨Nat.le_antisymm hend (Nat.not_lt.mp fun hlt => ?_), hr, rfl⟩
    have hactive : cfg.Active (c + 1) := ⟨Nat.le_succ_of_le hstart, hlt⟩
    rw [rest_next_color hr, ← rest_start hlt (hadm.numRows _ hactive),
      rest_lt (hadm.colorDepth _ hactive)] at hnil
    cases hnil
  · rintro ⟨hc, hr, rfl⟩
    rw [rest_next_color hr, hc, colorsFrom_end]

theorem Delivering.lastPlane_iff (hadm : Admitted cfg) (h : Delivering cfg s₀ n s) :
    lastPlane cfg s ↔ n = cfg.planeCount := by
  have hcount := h.counts
  have hrows : cfg.numRows s.iColor < 256 := by
    unfold Config.numRows
    split
    · exact Nat.mod_lt _ (by decide)
    · decide
  have hplace := h.place
  have hrow := hplace.row
  have hwrap : (cfg.numRows s.iColor + 2 ^ 32 - 1) % 2 ^ 32 = cfg.numRows s.iColor - 1 := by lia
  have hdye : 1 ≤ cfg.dyeCount := by
    have hdye := hadm.dyeCount
    lia
  have hleft : n = cfg.planeCount ↔ rest cfg s.iColor s.iRow s.iPlane = [] := by
    rw [← List.length_eq_zero_iff, h.remaining_length hadm]
    lia
  rw [hleft, rest_eq_nil_iff hadm hplace, lastPlane, hwrap]
  refine and_congr ?_ (and_congr ?_ Iff.rfl)
  · lia
  · lia

theorem Delivering.firstPlane_iff (hadm : Admitted cfg) (h : Delivering cfg s₀ n s) :
    firstPlane cfg s ↔ n = 1 := by
  have hle := h.le
  have hbegin := Delivering.start hadm s
  have hall : layers cfg = (cfg.startPlane, 0, 0) :: rest cfg cfg.startPlane 0 1 := by
    have hdrop := hbegin.remaining
    rw [List.drop_zero] at hdrop
    rw [hdrop]
    exact rest_lt (hadm.colorDepth _ hbegin.place.active)
  rw [← layers_length cfg hadm] at hle
  constructor
  · rintro ⟨hc, hr, hp⟩
    rcases h.last with ⟨-, -, -, hzero⟩ | ⟨hn, -, hlast⟩
    · rw [hp] at hzero
      cases hzero
    · -- the layers from the last one on are all of them
      rw [hc, hr, hp] at hlast
      have hlength := congrArg List.length hlast
      rw [← hall, List.length_drop] at hlength
      lia
  · rintro rfl
    rcases h.last with ⟨hn, -⟩ | ⟨-, hp, hlast⟩
    · cases hn
    · rw [Nat.sub_self, List.drop_zero, hall] at hlast
      have hhead : (cfg.startPlane, 0, 0) = (s.iColor, s.iRow, s.iPlane - 1) :=
        (List.cons.inj hlast).1
      obtain ⟨hc, hhead⟩ := Prod.mk.inj hhead
      obtain ⟨hr, hp'⟩ := Prod.mk.inj hhead
      exact ⟨hc.symm, hr.symm, by lia⟩

/-! ## Runs -/

/-- How many of the calls are `NextOutputRaster`. -/
def nexts (calls : List Pull) : Nat := calls.count .next

variable (cfg) in
/-- What `n` calls of `NextOutputRaster` give when `k` layers have been delivered:
the layers that are left, and then nothing. -/
def expected (s₀ : State) (k n : Nat) : List (Option (Option Mem)) :=
  (((layers cfg).drop k).take n).map (fun l => some (some (s₀.colorPlane l.1 l.2.1 l.2.2))) ++
    List.replicate (n - (cfg.planeCount - k)) none

theorem expected_zero (k : Nat) : expected cfg s₀ k 0 = [] := by
  rw [expected, Nat.zero_sub]
  rfl

theorem expected_layer {k c r p : Nat} (n : Nat) (hk : k < cfg.planeCount)
    (h : (layers cfg).drop k = (c, r, p) :: (layers cfg).drop (k + 1)) :
    expected cfg s₀ k (n + 1) = some (some (s₀.colorPlane c r p)) :: expected cfg s₀ (k + 1) n := by
  rw [expected, expected, h, List.take_succ_cons,
    show n + 1 - (cfg.planeCount - k) = n - (cfg.planeCount - (k + 1)) by lia]
  rfl

theorem expected_none (hadm : Admitted cfg) (n : Nat) :
    expected cfg s₀ cfg.planeCount (n + 1) = none :: expected cfg s₀ cfg.planeCount n := by
  rw [expected, expected, ← layers_length cfg hadm, List.drop_length, Nat.sub_self,
    List.take_nil, List.take_nil]
  rfl

theorem Delivering.pulls (hadm : Admitted cfg) (calls : List Pull) :
    ∀ {n : Nat} {s : State}, Delivering cfg s₀ n s →
      Returns (pulls cfg s calls) fun r =>
        r.2.map (Option.map fun raster => raster.rasterdata .color)
          = expected cfg s₀ n (nexts calls) ∧
        Delivering cfg s₀ (min (n + nexts calls) cfg.planeCount) r.1 := by
  induction calls with
  | nil =>
    intro n s h
    refine Returns.pure ⟨(expected_zero n).symm, ?_⟩
    show Delivering cfg s₀ (min n cfg.planeCount) s
    rwa [Nat.min_eq_left h.le]
  | cons call calls ih =>
    intro n s h
    cases call with
    | flush => exact ih h.flush
    | restart => exact ih h.restart
    | next =>
      have hnexts : nexts (.next :: calls) = nexts calls + 1 := List.count_cons_self
      have hcount := h.counts
      rw [hnexts, Halftoner.pulls]
      by_cases hready : s.iRastersReady = 0
      · obtain rfl : n = cfg.planeCount := by lia
        obtain ⟨⟨s', rasters⟩, hrun, hout, hs'⟩ := ih h
        rw [nextOutputRaster_none hready]
        simp only [Option.bind_eq_bind, Option.bind_some]
        rw [hrun]
        refine Returns.pure ⟨?_, ?_⟩
        · rw [expected_none hadm, ← hout]
          rfl
        · rwa [show min (cfg.planeCount + (nexts calls + 1)) cfg.planeCount
            = min (cfg.planeCount + nexts calls) cfg.planeCount by lia]
      · obtain ⟨s', raster, c, r, p, hnext, hdrop, hraster, h'⟩ := h.next hadm hready
        obtain ⟨⟨s'', rasters⟩, hrun, hout, hs''⟩ := ih h'
        rw [hnext]
        simp only [Option.bind_eq_bind, Option.bind_some]
        rw [hrun]
        refine Returns.pure ⟨?_, ?_⟩
        · rw [expected_layer _ (by lia) hdrop, ← hout, ← hraster]
          rfl
        · rwa [show n + (nexts calls + 1) = n + 1 + nexts calls by lia]

theorem process_ready {s s' : State} {input : Option RasterData}
    (h : process cfg s input = .ok (s', true)) : ∃ t, s' = ready cfg t := by
  cases input with
  | none => cases h
  | some raster =>
    unfold process at h
    dsimp only at h
    split at h
    · cases h
    · cases hcolor : processColor cfg (raster.rasterdata .color)
          (clearPlanes cfg { s with started := true, blackData := raster.rasterdata .black }) with
      | error e =>
        rw [hcolor] at h
        cases h
      | ok t =>
        rw [hcolor] at h
        cases h
        exact ⟨_, rfl⟩

end Deliveries

/-- **The delivery order.** After a successful `Process` the calls up to the next
one get the layers in lexicographic order, `PlaneCount` of them, and then false;
`FirstPlane` holds after the first delivery and `LastPlane` after the last one. -/
theorem delivery_order (cfg : Config) (hadm : Admitted cfg) (s s' : State)
    (input : Option RasterData) (hprocess : process cfg s input = .ok (s', true))
    (calls : List Pull) :
    (layers cfg).length = cfg.planeCount ∧
    Returns (pulls cfg s' calls) fun r =>
      r.2.map (Option.map fun raster => raster.rasterdata .color)
        = ((layers cfg).take (nexts calls)).map
            (fun l => some (some (s'.colorPlane l.1 l.2.1 l.2.2)))
          ++ List.replicate (nexts calls - cfg.planeCount) none ∧
      (firstPlane cfg r.1 ↔ min (nexts calls) cfg.planeCount = 1) ∧
      (lastPlane cfg r.1 ↔ cfg.planeCount ≤ nexts calls) ∧
      r.1.iRastersReady + r.1.iRastersDelivered = cfg.planeCount := by
  obtain ⟨t, rfl⟩ := process_ready hprocess
  refine ⟨layers_length cfg hadm, ((Delivering.start hadm t).pulls hadm calls).mono ?_⟩
  rintro r ⟨hout, hr⟩
  rw [Nat.zero_add] at hr
  refine ⟨hout, hr.firstPlane_iff hadm, ?_, ?_⟩
  · rw [hr.lastPlane_iff hadm]
    lia
  · rw [hr.delivered]
    exact hr.counts

/-- Three inks of one row and one bit plane: four calls after a black raster. -/
theorem delivery_order_three_inks : ∃ s',
    process (Config.plain 3 8) State.zero (some (.only .black (fun _ => 1) 8)) = .ok (s', true) ∧
    Returns (pulls (Config.plain 3 8) s' [.next, .next, .flush, .next, .next]) fun r =>
      r.2.map (Option.map fun raster => raster.rasterdata .color)
        = [some (some (s'.colorPlane 1 0 0)), some (some (s'.colorPlane 2 0 0)),
          some (some (s'.colorPlane 3 0 0)), none] ∧
      lastPlane (Config.plain 3 8) r.1 := by
  have hadm : Admitted (Config.plain 3 8) := by
    refine ⟨.inr (.inl rfl), fun i hi => ?_, fun i hi => ?_⟩
    · rw [Config.numRows, if_pos hi]
      exact Nat.le_refl 1
    · rw [Config.colorDepth, if_pos hi]
      exact Nat.le_refl 1
  refine ⟨_, rfl, ((delivery_order (Config.plain 3 8) hadm State.zero _
    (some (.only .black (fun _ => 1) 8)) rfl [.next, .next, .flush, .next, .next]).2).mono ?_⟩
  rintro r ⟨hout, -, hlast, -⟩
  exact ⟨hout, hlast.mpr (by decide)⟩

end Hplip.Hpcups.Halftoner
