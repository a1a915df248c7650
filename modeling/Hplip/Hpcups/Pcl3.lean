import Mathlib
import Hplip.Hpcups.Mode9
import Hplip.Hpcups.PlaneIndependence

/-!
# Halftoner and Mode 9 in one pipeline (Pcl3.cpp, Pipeline.cpp)

Every raster of the page leaves the halftoner as layers, one for each ink, row and
bit plane, which Mode 9 compresses one by one. It keeps the last raster of each layer
as the seed of the next, all in one buffer: a layer's place is its number in the row
times its own size. The black layers have one size, all others another.
-/

namespace Hplip.Hpcups.Pcl3

open Machine

/-! ## The pipeline -/

structure Layer where
  ink : Nat
  row : Nat
  bit : Nat
  deriving DecidableEq, Repr

/-- What Mode 9 was given: a layer's bytes with the seed that it compared them with,
or a flush. -/
inductive Event
  | layer (layer : Layer) (bytes seed : List UInt8)
  | flush
  deriving DecidableEq, Repr

structure State where
  halftoner : Halftoner.State
  mode9 : Mode9
  log : List Event

variable (cfg : Halftoner.Config)

/-- What `Halftoner::Process` puts into the planes of a raster: error diffusion, or the
Bayer matrix of a print mode that has `MATRIX`. -/
abbrev Dots := Halftoner.State → RasterData → Except Halftoner.State Halftoner.State

def diffuse : Dots := fun s raster => do
  let s ← Halftoner.processColor cfg (raster.rasterdata .color) (Halftoner.clearPlanes cfg s)
  .ok (Halftoner.processBlack cfg (raster.rasterdata .black) (raster.rastersize .black) s)

variable (dots : Dots)

/-- `Halftoner::Process`, of any halftoning. -/
def process (s : Halftoner.State) (input : Option RasterData) :
    Except Halftoner.State (Halftoner.State × Bool) :=
  match input with
  | none => .ok (Halftoner.restart cfg s, false)
  | some raster =>
    if raster.rasterdata .color = none ∧ raster.rasterdata .black = none then
      .ok (Halftoner.restart cfg s, false)
    else do
      let s ← dots { s with started := true, blackData := raster.rasterdata .black } raster
      .ok (Halftoner.ready cfg s, true)

theorem process_diffuse (s : Halftoner.State) (input : Option RasterData) :
    process cfg (diffuse cfg) s input = Halftoner.process cfg s input := by
  cases input with
  | none => rfl
  | some raster =>
    unfold process Halftoner.process diffuse
    simp only [bind_assoc]
    rfl

/-- `while (NextOutputRaster (next->Exec->raster)) next->Execute (..)`. -/
def deliver : Nat → State → Except State State
  | 0, s => .error s
  | fuel + 1, s =>
    match Halftoner.nextOutputRaster cfg s.halftoner with
    | none => .error s
    | some (h, none) => .ok { s with halftoner := h }
    | some (h, some raster) =>
      -- `iPlane` was incremented
      let layer : Layer := ⟨h.iColor, h.iRow, h.iPlane - 1⟩
      let size := raster.rastersize .color
      let slot := Mode9.slot s.mode9 (some h.iRastersDelivered) size
      match raster.rasterdata .color,
        Mode9.process s.mode9 (some h.iRastersDelivered) (some raster) with
      | some plane, some (m, _) =>
        let event := .layer layer (slice plane 0 size) (slice s.mode9.seedRow slot size)
        deliver fuel { halftoner := h, mode9 := m, log := event :: s.log }
      | _, _ => .error { s with halftoner := h }

/-- `Pipeline::Execute`, of the halftoner's phase. -/
def execute (s : State) (input : Option RasterData) : Except State State :=
  match process cfg dots s.halftoner input with
  | .error h => .error { s with halftoner := h }
  | .ok (h, ready) =>
    if ready then deliver cfg (h.iRastersReady + 1) { s with halftoner := h }
    else .ok { s with halftoner := h }

/-- `Pipeline::Flush`, of the halftoner's phase. -/
def flush (s : State) : Except State State := do
  let h := Halftoner.flush cfg s.halftoner
  let s ← deliver cfg (h.iRastersReady + 1) { s with halftoner := h }
  .ok { s with mode9 := Mode9.flush s.mode9, log := .flush :: s.log }

inductive Call
  | execute (input : Option RasterData)
  | flush

def exec (s : State) : Call → Except State State
  | .execute input => execute cfg dots s input
  | .flush => flush cfg s

def run (s : State) (calls : List Call) : Except State State :=
  calls.foldlM (exec cfg dots) s

/-- The two phases as `Configure` makes them; the heap is what their buffers held. -/
def configure (heap : Halftoner.State) (heapSeed heapK : Mem) : State where
  halftoner := Halftoner.new cfg heap
  mode9 := Mode9.new cfg.inputWidth false heapSeed heapK .color
  log := []

/-! ## Isolation -/

/-- The raster before of a layer, of `n` bytes: zeros if there is none since the last
flush. -/
def previous (layer : Layer) (n : Nat) : List Event → List UInt8
  | [] => List.replicate n 0
  | .flush :: _ => List.replicate n 0
  | .layer l bytes _ :: older => if l = layer then bytes else previous layer n older

def Isolated : List Event → Prop
  | [] => True
  | .flush :: older => Isolated older
  | .layer l bytes seed :: older => seed = previous l bytes.length older ∧ Isolated older

/-- The size of the layer with number `l` of a raster. -/
def layerSize (l : Nat) : Nat := Halftoner.getOutputWidth cfg (l + 1)

def blackLayers : Nat := cfg.numRows Halftoner.K * cfg.colorDepth Halftoner.K

def Apart : Prop :=
  blackLayers cfg = 0 ∨ cfg.planeCount ≤ blackLayers cfg ∨
    cfg.outputWidth Halftoner.K ≤ cfg.outputWidth Halftoner.C ∨
    cfg.outputWidth Halftoner.C = 0

/-- The layers do not meet, and the seed buffer holds the slots of all. -/
structure Isolating : Prop where
  fits : ∀ l < cfg.planeCount, layerSize cfg l * (l + 1) ≤ cfg.inputWidth
  apart : Apart cfg

/-! ## Layers in order -/

section Layers

variable {cfg}

/-- The layers of all inks before `ink`. -/
def before (cfg : Halftoner.Config) (ink : Nat) : Nat :=
  ((List.range ink).map fun i => cfg.numRows i * cfg.colorDepth i).sum

def number (cfg : Halftoner.Config) (l : Layer) : Nat :=
  before cfg l.ink + l.row * cfg.colorDepth l.ink + l.bit

structure Layer.Valid (cfg : Halftoner.Config) (l : Layer) : Prop where
  row : l.row < cfg.numRows l.ink
  bit : l.bit < cfg.colorDepth l.ink

theorem before_succ (ink : Nat) :
    before cfg (ink + 1) = before cfg ink + cfg.numRows ink * cfg.colorDepth ink := by
  simp [before, List.range_succ]

theorem before_mono {i j : Nat} (h : i ≤ j) : before cfg i ≤ before cfg j := by
  induction h with
  | refl => exact Nat.le_refl _
  | step _ ih =>
    rw [before_succ]
    exact Nat.le_trans ih (Nat.le_add_right _ _)

theorem before_startPlane : before cfg cfg.startPlane = 0 := by
  have hbefore : ∀ i ≤ cfg.startPlane, before cfg i = 0 := by
    intro i
    induction i with
    | zero => exact fun _ => rfl
    | succ i ih =>
      intro hi
      have hrow : cfg.numRows i = 0 := if_neg fun hactive => absurd hactive.1 (Nat.not_le_of_lt hi)
      rw [before_succ, ih (Nat.le_of_succ_le hi), hrow, Nat.zero_mul]
  exact hbefore _ (Nat.le_refl _)

theorem row_add_bit_lt {rows depth row bit : Nat} (hrow : row < rows) (hbit : bit < depth) :
    row * depth + bit < rows * depth := by
  calc row * depth + bit < row * depth + depth := Nat.add_lt_add_left hbit _
    _ = (row + 1) * depth := (Nat.succ_mul row depth).symm
    _ ≤ rows * depth := Nat.mul_le_mul_right depth hrow

theorem number_lt {l : Layer} (h : l.Valid cfg) : number cfg l < before cfg (l.ink + 1) := by
  have hlt := row_add_bit_lt h.row h.bit
  rw [before_succ, number]
  lia

theorem number_lt_of_ink_lt {l l' : Layer} (h : l.Valid cfg) (hlt : l.ink < l'.ink) :
    number cfg l < number cfg l' := by
  calc number cfg l < before cfg (l.ink + 1) := number_lt h
    _ ≤ before cfg l'.ink := before_mono hlt
    _ ≤ number cfg l' := by rw [number, Nat.add_assoc]; exact Nat.le_add_right _ _

theorem number_injective {l l' : Layer} (h : l.Valid cfg) (h' : l'.Valid cfg)
    (heq : number cfg l = number cfg l') : l = l' := by
  have hink : l.ink = l'.ink := by
    rcases Nat.lt_trichotomy l.ink l'.ink with hlt | hink | hgt
    · exact absurd heq (Nat.ne_of_lt (number_lt_of_ink_lt h hlt))
    · exact hink
    · exact absurd heq (Nat.ne_of_gt (number_lt_of_ink_lt h' hgt))
  obtain ⟨ink, row, bit⟩ := l
  obtain ⟨ink', row', bit'⟩ := l'
  obtain rfl : ink = ink' := hink
  have hsum : row * cfg.colorDepth ink + bit = row' * cfg.colorDepth ink + bit' := by
    unfold number at heq
    dsimp only at heq
    lia
  have hpos : 0 < cfg.colorDepth ink := Nat.lt_of_le_of_lt (Nat.zero_le _) h.bit
  have hrow : row = row' := by
    have := congrArg (· / cfg.colorDepth ink) hsum
    simpa [Nat.add_comm, Nat.add_mul_div_right _ _ hpos, Nat.div_eq_of_lt h.bit,
      Nat.div_eq_of_lt h'.bit] using this
  subst hrow
  rw [Nat.add_left_cancel hsum]

end Layers

/-! ## The cursor of the halftoner -/

section Cursor

variable {cfg}

/-- Where `NextOutputRaster` is: as many layers were delivered as there are in front of
the cursor. -/
structure Cursor (cfg : Halftoner.Config) (s : Halftoner.State) : Prop where
  delivered : s.iRastersDelivered = number cfg ⟨s.iColor, s.iRow, s.iPlane⟩
  left : s.iRastersReady + s.iRastersDelivered = cfg.planeCount
  ink_ge : cfg.startPlane ≤ s.iColor
  ink_le : s.iColor ≤ cfg.dyeCount + cfg.startPlane
  bit_le : s.iPlane ≤ cfg.colorDepth s.iColor
  row_le : cfg.colorDepth s.iColor ≠ 0 → s.iRow ≤ cfg.numRows s.iColor
  bit_eq : cfg.colorDepth s.iColor ≠ 0 → s.iRow = cfg.numRows s.iColor → s.iPlane = 0

theorem ready_cursor (s : Halftoner.State) : Cursor cfg (Halftoner.ready cfg s) where
  delivered := by
    show 0 = before cfg cfg.startPlane + 0 * _ + 0
    rw [before_startPlane, Nat.zero_mul]
  left := Nat.add_zero _
  ink_ge := Nat.le_refl _
  ink_le := Nat.le_add_left _ _
  bit_le := Nat.zero_le _
  row_le _ := Nat.zero_le _
  bit_eq _ _ := rfl

theorem Cursor.nextRow {s : Halftoner.State} (h : Cursor cfg s)
    (hend : s.iPlane = cfg.colorDepth s.iColor) :
    Cursor cfg { s with iPlane := 0, iRow := s.iRow + 1 } where
  delivered := by
    rw [h.delivered]
    simp only [number]
    rw [hend, Nat.succ_mul]
    lia
  left := h.left
  ink_ge := h.ink_ge
  ink_le := h.ink_le
  bit_le := Nat.zero_le _
  row_le hdepth := by
    rcases Nat.lt_or_eq_of_le (h.row_le hdepth) with hlt | heq
    · exact hlt
    · exact absurd (hend ▸ h.bit_eq hdepth heq) hdepth
  bit_eq _ _ := rfl

theorem Cursor.nextColor {s : Halftoner.State} (h : Cursor cfg s)
    (hink : s.iColor ≠ cfg.dyeCount + cfg.startPlane)
    (hbit : s.iPlane ≠ cfg.colorDepth s.iColor) (hend : s.iRow = cfg.numRows s.iColor) :
    Cursor cfg { s with iRow := 0, iColor := s.iColor + 1 } := by
  have hdepth : cfg.colorDepth s.iColor ≠ 0 := by
    have := h.bit_le
    lia
  have hplane : s.iPlane = 0 := h.bit_eq hdepth hend
  constructor
  · rw [h.delivered]
    simp only [number]
    rw [hend, before_succ, Nat.zero_mul, Nat.add_zero]
  · exact h.left
  · exact Nat.le_succ_of_le h.ink_ge
  · have := h.ink_le
    show s.iColor + 1 ≤ _
    lia
  · show s.iPlane ≤ _
    rw [hplane]
    exact Nat.zero_le _
  · exact fun _ => Nat.zero_le _
  · exact fun _ _ => hplane

/-- What `seek` finds: the end, or a layer; it moves nothing but the cursor. -/
structure Found (cfg : Halftoner.Config) (s t : Halftoner.State) (there : Bool) : Prop where
  ready : t.iRastersReady = s.iRastersReady
  cursor : Cursor cfg t
  pending : there = true → t.iRastersReady ≠ 0
  valid : there = true → Layer.Valid cfg ⟨t.iColor, t.iRow, t.iPlane⟩

theorem seek_found (fuel : Nat) {s t : Halftoner.State} {there : Bool} (h : Cursor cfg s)
    (hseek : Halftoner.seek cfg fuel s = some (t, there)) : Found cfg s t there := by
  induction fuel generalizing s with
  | zero => cases hseek
  | succ fuel ih =>
    rw [Halftoner.seek] at hseek
    split at hseek
    · cases hseek
      exact ⟨rfl, h, nofun, nofun⟩
    split at hseek
    · cases hseek
      exact ⟨rfl, h, nofun, nofun⟩
    split at hseek
    · have hfound := ih (h.nextRow ‹_›) hseek
      exact ⟨hfound.ready, hfound.cursor, hfound.pending, hfound.valid⟩
    split at hseek
    · have hfound := ih (h.nextColor ‹_› ‹_› ‹_›) hseek
      exact ⟨hfound.ready, hfound.cursor, hfound.pending, hfound.valid⟩
    · cases hseek
      have hbit : t.iPlane < cfg.colorDepth t.iColor := Nat.lt_of_le_of_ne h.bit_le ‹_›
      have hrow : t.iRow < cfg.numRows t.iColor :=
        Nat.lt_of_le_of_ne (h.row_le (Nat.ne_zero_of_lt hbit)) ‹_›
      exact ⟨rfl, h, fun _ => ‹_›, fun _ => ⟨hrow, hbit⟩⟩

def Deep (cfg : Halftoner.Config) : Prop := ∀ i, cfg.Active i → 0 < cfg.colorDepth i

theorem seek_returns_of_row (hdeep : Deep cfg) (fuel : Nat) {s : Halftoner.State}
    (hfirst : cfg.startPlane ≤ s.iColor) (hlast : s.iColor ≤ cfg.dyeCount + cfg.startPlane)
    (hfuel : cfg.dyeCount + cfg.startPlane - s.iColor < fuel) (hplane : s.iPlane = 0) :
    ∃ r, Halftoner.seek cfg fuel s = some r := by
  induction fuel generalizing s with
  | zero => exact absurd hfuel (Nat.not_lt_zero _)
  | succ fuel ih =>
    rw [Halftoner.seek]
    split
    · exact ⟨_, rfl⟩
    split
    · exact ⟨_, rfl⟩
    rename_i hink
    have hpos := hdeep s.iColor ⟨hfirst, Nat.lt_of_le_of_ne hlast hink⟩
    rw [if_neg (by lia)]
    split
    · exact ih (Nat.le_succ_of_le hfirst) (by show s.iColor + 1 ≤ _; lia)
        (by show _ - (s.iColor + 1) < _; lia) hplane
    · exact ⟨_, rfl⟩

theorem seek_returns (hdeep : Deep cfg) {s : Halftoner.State} (h : Cursor cfg s) :
    ∃ r, Halftoner.seek cfg (cfg.dyeCount + 3) s = some r := by
  have hfirst := h.ink_ge
  by_cases hplane : s.iPlane = 0
  · exact seek_returns_of_row hdeep _ h.ink_ge h.ink_le (by lia) hplane
  rw [Halftoner.seek]
  split
  · exact ⟨_, rfl⟩
  split
  · exact ⟨_, rfl⟩
  split
  · exact seek_returns_of_row hdeep _ h.ink_ge h.ink_le
      (by show _ - s.iColor < _; lia) rfl
  split
  · have hdepth : cfg.colorDepth s.iColor ≠ 0 := by
      have := h.bit_le
      lia
    exact absurd (h.bit_eq hdepth ‹_›) hplane
  · exact ⟨_, rfl⟩

/-- The layer that was delivered last; `iPlane` was incremented. -/
def lastLayer (h : Halftoner.State) : Layer := ⟨h.iColor, h.iRow, h.iPlane - 1⟩

/-- What `NextOutputRaster` hands on: the layer with the next number. -/
structure Delivered (cfg : Halftoner.Config) (s t : Halftoner.State) (raster : RasterData) :
    Prop where
  ready : t.iRastersReady + 1 = s.iRastersReady
  cursor : Cursor cfg t
  valid : (lastLayer t).Valid cfg
  number_lt : number cfg (lastLayer t) < cfg.planeCount
  delivered : t.iRastersDelivered = number cfg (lastLayer t) + 1
  size : raster.rastersize .color = layerSize cfg (number cfg (lastLayer t))
  data : ∃ plane, raster.rasterdata .color = some plane

theorem deliverLayer_spec {s t : Halftoner.State} (h : Found cfg s t true) :
    Delivered cfg s (Halftoner.deliverLayer cfg t).1 (Halftoner.deliverLayer cfg t).2 := by
  have hvalid := h.valid rfl
  have hready := h.ready
  have hleft := h.cursor.left
  have hpending := h.pending rfl
  have hnumber : t.iRastersDelivered = number cfg ⟨t.iColor, t.iRow, t.iPlane⟩ :=
    h.cursor.delivered
  have hlast : lastLayer (Halftoner.deliverLayer cfg t).1 = ⟨t.iColor, t.iRow, t.iPlane⟩ := rfl
  constructor
  · show t.iRastersReady - 1 + 1 = _
    lia
  · constructor
    · show t.iRastersDelivered + 1
        = before cfg t.iColor + t.iRow * cfg.colorDepth t.iColor + (t.iPlane + 1)
      rw [hnumber]
      rfl
    · show t.iRastersReady - 1 + (t.iRastersDelivered + 1) = _
      lia
    · exact h.cursor.ink_ge
    · exact h.cursor.ink_le
    · exact hvalid.bit
    · exact fun _ => Nat.le_of_lt hvalid.row
    · exact fun _ heq => absurd heq (Nat.ne_of_lt hvalid.row)
  · rw [hlast]
    exact hvalid
  · rw [hlast, ← hnumber]
    lia
  · rw [hlast, ← hnumber]
    rfl
  · rw [hlast, ← hnumber]
    rfl
  · exact ⟨_, rfl⟩

def CursorOk (cfg : Halftoner.Config) (s : Halftoner.State) : Prop :=
  s.iRastersReady ≠ 0 → Cursor cfg s

theorem restart_cursor {s : Halftoner.State} (h : CursorOk cfg s) :
    CursorOk cfg (Halftoner.restart cfg s) := by
  intro hready
  have hcursor := h hready
  exact ⟨hcursor.delivered, hcursor.left, hcursor.ink_ge, hcursor.ink_le, hcursor.bit_le,
    hcursor.row_le, hcursor.bit_eq⟩

theorem nextOutputRaster_spec {s : Halftoner.State} (h : CursorOk cfg s) :
    match Halftoner.nextOutputRaster cfg s with
    | none => ¬ Deep cfg
    | some (t, none) => CursorOk cfg t
    | some (t, some raster) => Delivered cfg s t raster := by
  by_cases hready : s.iRastersReady = 0
  · have hseek : Halftoner.seek cfg (cfg.dyeCount + 3) s = some (s, false) := by
      rw [Halftoner.seek, if_pos hready]
    rw [Halftoner.nextOutputRaster, hseek]
    exact h
  have hcursor := h hready
  rw [Halftoner.nextOutputRaster]
  cases hseek : Halftoner.seek cfg (cfg.dyeCount + 3) s with
  | none =>
    intro hdeep
    obtain ⟨r, hr⟩ := seek_returns hdeep hcursor
    rw [hseek] at hr
    cases hr
  | some r =>
    obtain ⟨t, there⟩ := r
    have hfound := seek_found _ hcursor hseek
    cases there with
    | false => exact fun _ => hfound.cursor
    | true => exact deliverLayer_spec hfound

end Cursor

/-! ## Slots -/

section Slots

variable {cfg}

theorem layerSize_eq (l : Nat) : layerSize cfg l =
    (cfg.outputWidth (if l < blackLayers cfg then Halftoner.K else Halftoner.C) + 7) / 8 := rfl

def DisjointSlots (cfg : Halftoner.Config) (l m : Nat) : Prop :=
  layerSize cfg l = 0 ∨ layerSize cfg m = 0 ∨
    layerSize cfg l * (l + 1) ≤ layerSize cfg m * m ∨
    layerSize cfg m * (m + 1) ≤ layerSize cfg l * l

theorem DisjointSlots.symm {l m : Nat} (h : DisjointSlots cfg l m) : DisjointSlots cfg m l := by
  unfold DisjointSlots at *
  tauto

theorem Apart.disjoint_of_lt (h : Apart cfg) {l m : Nat} (hlt : l < m) (hm : m < cfg.planeCount) :
    DisjointSlots cfg l m := by
  have hslot : ∀ size, size * (l + 1) ≤ size * m := fun size => Nat.mul_le_mul_left size hlt
  by_cases hblack : m < blackLayers cfg
  · have hsize : layerSize cfg l = layerSize cfg m := by
      rw [layerSize_eq, layerSize_eq, if_pos hblack, if_pos (Nat.lt_trans hlt hblack)]
    exact .inr (.inr (.inl (hsize ▸ hslot _)))
  by_cases hl : l < blackLayers cfg
  swap
  · have hsize : layerSize cfg l = layerSize cfg m := by
      rw [layerSize_eq, layerSize_eq, if_neg hblack, if_neg hl]
    exact .inr (.inr (.inl (hsize ▸ hslot _)))
  rw [DisjointSlots, layerSize_eq, layerSize_eq, if_pos hl, if_neg hblack]
  rcases h with hnone | hall | hle | hzero
  · exact absurd hl (by omega)
  · exact absurd (Nat.lt_of_lt_of_le hm hall) hblack
  · have hbytes : (cfg.outputWidth Halftoner.K + 7) / 8 ≤ (cfg.outputWidth Halftoner.C + 7) / 8 :=
      Nat.div_le_div_right (Nat.add_le_add_right hle 7)
    exact .inr (.inr (.inl (Nat.mul_le_mul hbytes hlt)))
  · exact .inr (.inl (by rw [hzero]))

/-- **The slots of a raster are apart exactly if `Apart` says so**: when both kinds of
layers are there, no black layer may be larger than the others. -/
theorem disjointSlots_iff : (∀ l < cfg.planeCount, ∀ m < cfg.planeCount, l ≠ m →
    DisjointSlots cfg l m) ↔ Apart cfg := by
  constructor
  · intro h
    by_cases hnone : blackLayers cfg = 0
    · exact .inl hnone
    by_cases hall : cfg.planeCount ≤ blackLayers cfg
    · exact .inr (.inl hall)
    refine .inr (.inr ?_)
    obtain ⟨k, hk⟩ := cfg.outputWidth_dvd Halftoner.K
    obtain ⟨c, hc⟩ := cfg.outputWidth_dvd Halftoner.C
    rw [hk, hc]
    by_contra hlarge
    obtain ⟨hcpos, hlt⟩ : 0 < c ∧ c < k := by lia
    -- the black layer that holds the first byte of the first other one
    let b := blackLayers cfg
    have hb : b * c < k * b := by
      rw [Nat.mul_comm k b]
      exact Nat.mul_lt_mul_of_pos_left hlt (Nat.pos_of_ne_zero hnone)
    have hl : b * c / k < b := Nat.div_lt_of_lt_mul hb
    have hstart : k * (b * c / k) ≤ b * c := Nat.mul_div_le _ _
    have hend : b * c < k * (b * c / k + 1) := Nat.lt_mul_div_succ _ (Nat.lt_trans hcpos hlt)
    have hmeet := h (b * c / k) (by lia) b (by lia) (Nat.ne_of_lt hl)
    rw [DisjointSlots, layerSize_eq, layerSize_eq, if_pos hl, if_neg (Nat.lt_irrefl _), hk, hc,
      show (8 * k + 7) / 8 = k by lia, show (8 * c + 7) / 8 = c by lia,
      Nat.mul_succ c b, Nat.mul_comm c b] at hmeet
    lia
  · intro h l hl m hm hne
    rcases Nat.lt_or_gt_of_ne hne with hlt | hgt
    · exact h.disjoint_of_lt hlt hm
    · exact (h.disjoint_of_lt hgt hl).symm

end Slots

/-! ## Seeds -/

section Seeds

variable {cfg}

def seedOf (cfg : Halftoner.Config) (m : Mode9) (l : Layer) : List UInt8 :=
  slice m.seedRow (layerSize cfg (number cfg l) * number cfg l) (layerSize cfg (number cfg l))

/-- What Mode 9 keeps between two layers: the seed of each is its last raster. -/
structure Seeds (cfg : Halftoner.Config) (m : Mode9) (log : List Event) : Prop where
  myplane : m.myplane = .color
  inputsize : m.inputsize = cfg.inputWidth
  seed : ∀ l : Layer, l.Valid cfg → number cfg l < cfg.planeCount →
    seedOf cfg m l = previous l (layerSize cfg (number cfg l)) log
  unseeded : m.seeded = false → ∀ l n, previous l n log = List.replicate n 0

theorem seedOf_memset (hfits : ∀ l < cfg.planeCount, layerSize cfg l * (l + 1) ≤ cfg.inputWidth)
    {m m' : Mode9} (hrow : m'.seedRow = memset m.seedRow 0 cfg.inputWidth) {l : Layer}
    (hl : number cfg l < cfg.planeCount) :
    seedOf cfg m' l = List.replicate (layerSize cfg (number cfg l)) 0 := by
  have hfit := hfits _ hl
  rw [Nat.mul_succ] at hfit
  rw [seedOf, hrow]
  refine slice_eq_replicate fun j hj => ?_
  rw [memset, blit, if_pos (by lia)]

theorem new_seeds (hfits : ∀ l < cfg.planeCount, layerSize cfg l * (l + 1) ≤ cfg.inputWidth)
    (heapSeed heapK : Mem) :
    Seeds cfg (Mode9.new cfg.inputWidth false heapSeed heapK .color) [] where
  myplane := rfl
  inputsize := rfl
  seed _ _ hl := seedOf_memset hfits
    (m := { Mode9.new cfg.inputWidth false heapSeed heapK .color with seedRow := heapSeed })
    rfl hl
  unseeded _ _ _ := rfl

theorem Seeds.flush {m : Mode9} {log : List Event} (h : Seeds cfg m log)
    (hfits : ∀ l < cfg.planeCount, layerSize cfg l * (l + 1) ≤ cfg.inputWidth) :
    Seeds cfg (Mode9.flush m) (.flush :: log) := by
  unfold Mode9.flush
  split
  · rename_i hseeded
    have hzero := h.unseeded (by simpa using hseeded)
    constructor
    · exact h.myplane
    · exact h.inputsize
    · intro l hvalid hl
      rw [h.seed l hvalid hl, hzero]
      rfl
    · exact fun _ _ _ => rfl
  · constructor
    · exact h.myplane
    · exact h.inputsize
    · intro l _ hl
      exact seedOf_memset (m := m) hfits (by rw [← h.inputsize]) hl
    · exact fun _ _ _ => rfl

theorem Seeds.layer {m m' : Mode9} {log : List Event} (h : Seeds cfg m log) (hapart : Apart cfg)
    {l : Layer} (hvalid : l.Valid cfg) (hl : number cfg l < cfg.planeCount) {plane : Mem}
    {seed : List UInt8}
    (hm : Mode9.Processed m (layerSize cfg (number cfg l) * number cfg l) plane
      (layerSize cfg (number cfg l)) m') :
    Seeds cfg m' (.layer l (slice plane 0 (layerSize cfg (number cfg l))) seed :: log) := by
  constructor
  · exact hm.myplane.trans h.myplane
  · exact hm.inputsize.trans h.inputsize
  · intro l' hvalid' hl'
    rw [seedOf, hm.seedRow, previous]
    by_cases heq : l = l'
    · subst heq
      rw [if_pos rfl, slice_blit_self]
    rw [if_neg heq, ← h.seed l' hvalid' hl', seedOf]
    have hne : number cfg l ≠ number cfg l' := fun hnum =>
      heq (number_injective hvalid hvalid' hnum)
    rcases disjointSlots_iff.mpr hapart _ hl _ hl' hne with hzero | hzero | hle | hle
    · rw [hzero]
      exact slice_congr fun j _ => blit_of_not_mem (by lia)
    · rw [hzero]
      rfl
    · exact slice_blit_of_disjoint (.inr hle)
    · exact slice_blit_of_disjoint (.inl hle)
  · intro hseeded
    rw [hm.seeded] at hseeded
    cases hseeded

end Seeds

/-! ## Runs -/

section Runs

variable {cfg}

structure Inv (cfg : Halftoner.Config) (s : State) : Prop where
  cursor : CursorOk cfg s.halftoner
  seeds : Seeds cfg s.mode9 s.log
  isolated : Isolated s.log

/-- The inks have bit planes and the halftoning of a raster ends. -/
def Total (cfg : Halftoner.Config) (dots : Dots) : Prop :=
  Deep cfg ∧ ∀ h raster, ∃ t, dots h raster = .ok t

theorem diffuse_total (hdeep : Deep cfg) (hroomy : cfg.Roomy) : Total cfg (diffuse cfg) := by
  refine ⟨hdeep, fun h raster => ?_⟩
  have hfree : ∀ i ∈ cfg.planes, ¬ cfg.Stuck i := fun i hi hstuck => hstuck.2 (hroomy i hi hstuck.1)
  unfold diffuse Halftoner.processColor
  cases raster.rasterdata .color with
  | none => exact ⟨_, rfl⟩
  | some data =>
    obtain ⟨t, ht, -⟩ := Halftoner.planes_draws hfree data
      (s := Halftoner.nextRaster (Halftoner.clearPlanes cfg h)) rfl
    exact ⟨_, by dsimp only; rw [ht]; rfl⟩

structure Stuck (cfg : Halftoner.Config) (dots : Dots) (s : State) : Prop where
  isolated : Isolated s.log
  total : ¬ Total cfg dots

theorem deliver_step (hcond : Isolating cfg) {s : State} (h : Inv cfg s) {t : Halftoner.State}
    {raster : RasterData} (hnext : Delivered cfg s.halftoner t raster) :
    ∃ plane m, raster.rasterdata .color = some plane ∧
      Mode9.process s.mode9 (some t.iRastersDelivered) (some raster) = some (m, true) ∧
      Inv cfg
        { halftoner := t
          mode9 := m
          log := .layer (lastLayer t) (slice plane 0 (raster.rastersize .color))
            (slice s.mode9.seedRow
              (Mode9.slot s.mode9 (some t.iRastersDelivered) (raster.rastersize .color))
              (raster.rastersize .color)) :: s.log } := by
  obtain ⟨plane, hplane⟩ := hnext.data
  have hcolor := h.seeds.myplane
  have hsize := hnext.size
  have hslot : Mode9.slot s.mode9 (some t.iRastersDelivered) (raster.rastersize .color)
      = layerSize cfg (number cfg (lastLayer t)) * number cfg (lastLayer t) := by
    rw [Mode9.slot, Mode9.layer, hcolor, if_neg nofun, hsize, Option.getD_some, hnext.delivered,
      Nat.add_sub_cancel]
  have hdata : raster.rasterdata s.mode9.myplane = some plane := by rw [hcolor, hplane]
  have hrow : Mode9.plane s.mode9 raster = some (plane, raster.rastersize .color) := by
    rw [Mode9.plane, hcolor, hplane]
  obtain ⟨⟨m, there⟩, hprocess, rfl, hm⟩ :=
    Mode9.process_spec s.mode9 (some t.iRastersDelivered) raster hdata hrow
  refine ⟨plane, m, hplane, hprocess, fun _ => hnext.cursor, ?_, ?_, h.isolated⟩
  · rw [hslot, hsize] at hm
    rw [hsize]
    exact h.seeds.layer hcond.apart hnext.valid hnext.number_lt hm
  · rw [hslot, hsize, slice_length]
    exact h.seeds.seed _ hnext.valid hnext.number_lt

theorem deliver_ends (hcond : Isolating cfg) (dots : Dots) (fuel : Nat) {s : State}
    (h : Inv cfg s) (hfuel : s.halftoner.iRastersReady < fuel) :
    Ends (Inv cfg) (Stuck cfg dots) (deliver cfg fuel s) := by
  induction fuel generalizing s with
  | zero => exact absurd hfuel (Nat.not_lt_zero _)
  | succ fuel ih =>
    have hspec := nextOutputRaster_spec h.cursor
    rw [deliver]
    cases hnext : Halftoner.nextOutputRaster cfg s.halftoner with
    | none =>
      rw [hnext] at hspec
      exact ⟨h.isolated, fun htotal => hspec htotal.1⟩
    | some r =>
      obtain ⟨t, raster⟩ := r
      rw [hnext] at hspec
      cases raster with
      | none => exact ⟨hspec, h.seeds, h.isolated⟩
      | some raster =>
        obtain ⟨plane, m, hplane, hprocess, hinv⟩ := deliver_step hcond h hspec
        simp only [hplane, hprocess]
        refine ih hinv ?_
        have hready := hspec.ready
        show t.iRastersReady < fuel
        omega

theorem execute_ends (hcond : Isolating cfg) (dots : Dots) {s : State} (h : Inv cfg s)
    (input : Option RasterData) :
    Ends (Inv cfg) (Stuck cfg dots) (execute cfg dots s input) := by
  -- a raster that is not there only restarts the halftoner
  have hrestart : Inv cfg { s with halftoner := Halftoner.restart cfg s.halftoner } :=
    ⟨restart_cursor h.cursor, h.seeds, h.isolated⟩
  unfold execute process
  cases input with
  | none => exact hrestart
  | some raster =>
    dsimp only
    by_cases hempty : raster.rasterdata .color = none ∧ raster.rasterdata .black = none
    · rw [if_pos hempty]
      exact hrestart
    rw [if_neg hempty]
    cases hdots : dots { s.halftoner with
        started := true, blackData := raster.rasterdata .black } raster with
    | error t =>
      refine ⟨h.isolated, fun htotal => ?_⟩
      obtain ⟨t', ht'⟩ := htotal.2 _ raster
      rw [hdots] at ht'
      cases ht'
    | ok t =>
      exact deliver_ends hcond dots _ ⟨fun _ => ready_cursor t, h.seeds, h.isolated⟩
        (Nat.lt_succ_self _)

theorem flush_ends (hcond : Isolating cfg) (dots : Dots) {s : State} (h : Inv cfg s) :
    Ends (Inv cfg) (Stuck cfg dots) (flush cfg s) := by
  have hflush : CursorOk cfg (Halftoner.flush cfg s.halftoner) := by
    unfold Halftoner.flush
    split
    · exact h.cursor
    · exact restart_cursor h.cursor
  refine (deliver_ends hcond dots _ (s := { s with halftoner := Halftoner.flush cfg s.halftoner })
    ⟨hflush, h.seeds, h.isolated⟩ (Nat.lt_succ_self _)).bind ?_
  intro t ht
  exact ⟨ht.cursor, ht.seeds.flush hcond.fits, ht.isolated⟩

theorem exec_ends (hcond : Isolating cfg) (dots : Dots) {s : State} (h : Inv cfg s) (c : Call) :
    Ends (Inv cfg) (Stuck cfg dots) (exec cfg dots s c) := by
  cases c with
  | execute input => exact execute_ends hcond dots h input
  | flush => exact flush_ends hcond dots h

theorem configure_inv (hcond : Isolating cfg) (heap : Halftoner.State) (heapSeed heapK : Mem) :
    Inv cfg (configure cfg heap heapSeed heapK) :=
  ⟨fun hready => absurd rfl hready, new_seeds hcond.fits heapSeed heapK, trivial⟩

end Runs

/-- **Seeds are isolated** in every run of the two phases whose layers do not meet in the
seed buffer, whatever the halftoning; and no such run is stuck. -/
theorem run_isolated (cfg : Halftoner.Config) (hcond : Isolating cfg) (dots : Dots)
    (heap : Halftoner.State) (heapSeed heapK : Mem) (calls : List Call) :
    Isolated (reached (run cfg dots (configure cfg heap heapSeed heapK) calls)).log ∧
      (Total cfg dots → ∃ t, run cfg dots (configure cfg heap heapSeed heapK) calls = .ok t) := by
  have hends : Ends (Inv cfg) (Stuck cfg dots)
      (run cfg dots (configure cfg heap heapSeed heapK) calls) :=
    Ends.foldlM (fun s c _ h => exec_ends hcond dots h c) (configure_inv hcond heap heapSeed heapK)
  constructor
  · exact (hends.mono (fun _ h => h.isolated) (fun _ h => h.isolated)).reached fun _ h => h
  · intro htotal
    obtain ⟨t, ht, -⟩ := hends.ok fun _ h => h.total htotal
    exact ⟨t, ht⟩

def blackRow (inputWidth : Nat) : RasterData :=
  .only .color (fun x => if x < inputWidth then 255 else 0) (4 * inputWidth)

theorem plain_deep (dyeCount inputWidth : Nat) :
    Deep (Halftoner.Config.plain dyeCount inputWidth) := fun i hi => by
  rw [Halftoner.Config.colorDepth, if_pos hi]
  exact Nat.one_pos

theorem plain_roomy : (Halftoner.Config.plain 4 8).Roomy := by
  unfold Halftoner.Config.Roomy
  decide

/-- Four inks of one size. -/
theorem run_isolated_plain :
    Isolated (reached (run (.plain 4 8) (diffuse (.plain 4 8))
      (configure (.plain 4 8) Halftoner.State.zero (fun _ => 7) (fun _ => 7))
      [.execute (some (blackRow 8)), .flush, .execute (some (blackRow 8))])).log ∧
    ∃ t, run (.plain 4 8) (diffuse (.plain 4 8))
      (configure (.plain 4 8) Halftoner.State.zero (fun _ => 7) (fun _ => 7))
      [.execute (some (blackRow 8)), .flush, .execute (some (blackRow 8))] = .ok t := by
  refine (run_isolated _ ⟨?_, ?_⟩ _ _ _ _ _).imp_right fun h =>
    h (diffuse_total (plain_deep 4 8) plain_roomy)
  · decide
  · exact .inr (.inr (.inl (Nat.le_refl _)))

/-! ## A print mode whose layers meet -/

/-- `HTBinary_open`: no pixel has a level of its own. -/
def htBinaryOpen : Mem := fun k =>
  if k % 4 = 1 ∧ 8 ≤ k then UInt8.ofNat (min (k / 4) 254) else 0

/-- `HT300x3004level_open`: three times the pixel, as a level and what is left of it. -/
def ht300x3004levelOpen : Mem := fun k =>
  let value := if 8 ≤ k then 3 * (k / 4) else 0
  let level := min (value / 255) 2
  if k % 4 = 0 then UInt8.ofNat level
  else if k % 4 = 1 then UInt8.ofNat (value - 255 * level)
  else 0

/-- `PlainNormalColor` of dj850PrintModes.h: black at 600 dpi, the other inks at 300. -/
def plainNormalColor (inputWidth : Nat) : Halftoner.Config where
  dyeCount := 4
  inputWidth := inputWidth
  iNumRows := fun i => if i = Halftoner.K then 600 / 300 else 300 / 300
  resBoost := 300 / 300
  modeColorDepth := fun i => if i = Halftoner.K then 1 else 2
  blackFEDTable := htBinaryOpen
  colorFEDTable := ht300x3004levelOpen
  resBoost_pos := by decide

instance decidableIsolated : (log : List Event) → Decidable (Isolated log)
  | [] => .isTrue trivial
  | .flush :: older => decidableIsolated older
  | .layer l bytes seed :: older =>
    have := decidableIsolated older
    inferInstanceAs (Decidable (seed = previous l bytes.length older ∧ Isolated older))

/-- The second black row of eight pixels is stored where the first two bit planes of
cyan look for their seeds. -/
theorem not_isolated : ¬ Isolated (reached (run (plainNormalColor 8) (diffuse (plainNormalColor 8))
    (configure (plainNormalColor 8) Halftoner.State.zero (fun _ => 0) (fun _ => 0))
    [.execute (some (blackRow 8))])).log := by
  decide +kernel

end Hplip.Hpcups.Pcl3
