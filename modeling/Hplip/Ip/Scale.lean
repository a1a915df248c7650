import Hplip.Lib.Loop
import Mathlib.Logic.Function.Basic
import Mathlib.Tactic.Ring

/-!
# Vertical scaling of grey and colour images

`contone_scale_row` takes an input row that has been scaled horizontally and makes output
rows of the rows it has saved; `scale_convert` hands them out one by one. How many rows it
makes and with which weights depends on positions only, so the positions are a machine of
their own, `advance`.
-/

namespace Hplip.Ip.Scale

open Loop

abbrev Row := List UInt8

/-! ## The instance -/

def maxRowsAp : Nat := 6

theorem two_le_maxRowsAp : 2 ≤ maxRowsAp := by decide

def heldArraySize : Nat := 7

structure ScInst where
  fast : Bool
  vertFac : Nat
  vertPos : Nat
  inRowNbytes : Nat
  outRowNbytes : Nat
  rows : Nat → Row
  nMaxOutRows : Nat
  nMoreHeldOutRows : Nat
  iNextHeldOutRow : Nat
  heldOutRows : Nat → Row
  invVertFac : Nat
  invVertPos : Int
  nSavedRows : Nat
  nAllocedRows : Nat
  nMoreFlush : Nat
  inNextPos : UInt32
  outNextPos : UInt32

/-- `inv_vert_fac` -/
def inverse (f : Nat) : Nat := (0x80000000 / f) * 2 + 1

/-- The vertical part of `scale_getActualTraits` and of `contone_scale_open`. -/
def scaleOpen (fast : Bool) (vertFac inRowNbytes outRowNbytes : Nat) : Option ScInst := do
  let fast := fast && decide (¬ 0x10000 < vertFac)
  check (fast = true ∨ 0x4000 ≤ vertFac ∧ vertFac ≤ 0x60000)
  let inv := inverse vertFac
  let up := 0x10000 ≤ vertFac
  let nMaxOutRows := (vertFac + 0xffff) / 0x10000
  check (nMaxOutRows ≤ heldArraySize)
  return {
    fast := fast
    vertFac := vertFac
    vertPos := if fast ∨ up then 0 else vertFac
    inRowNbytes := inRowNbytes
    outRowNbytes := outRowNbytes
    rows := fun _ => List.replicate outRowNbytes 0xff
    nMaxOutRows := nMaxOutRows
    nMoreHeldOutRows := 0
    iNextHeldOutRow := 0
    heldOutRows := fun _ => []
    invVertFac := inv
    invVertPos := if fast = false ∧ up then inv else 0
    nSavedRows := 0
    nAllocedRows := if fast then 0 else if up then 2 else (inv + 0xffff) / 0x10000 % 256 + 1
    nMoreFlush := 0
    inNextPos := 0
    outNextPos := 0 }

/-! ## Blending -/

def byte (r : Row) (i : Nat) : Nat := (r.getD i 0).toNat

/-- The blend of two bytes with `k` eighths of the first one. -/
def eighths (k a b : Nat) : Nat :=
  match k with
  | 1 => a / 8 + b - b / 8
  | 2 => a / 4 + b - b / 4
  | 3 => a / 4 + a / 8 + b / 2 + b / 8
  | 4 => a / 2 + b / 2
  | 5 => a / 2 + a / 8 + b / 4 + b / 8
  | 6 => a - a / 4 + b / 4
  | _ => a - a / 8 + b / 8

/-- `weight_two_rows`. In the cases 1 to 7 the loop is `*out_p++ = ...` alone: `p1` and `p2`
are advanced behind it. -/
def weightTwoRows (g : ScInst) (firstWeight : Nat) : Option Row :=
  match (firstWeight + 0x1000) / 0x2000 with
  | 0 => some ((g.rows 1).take g.outRowNbytes)
  | 8 => some ((g.rows 0).take g.outRowNbytes)
  | k => do
    check (k < 8)
    return List.replicate g.outRowNbytes
      (eighths k (byte (g.rows 0) 0) (byte (g.rows 1) 0)).toUInt8

/-- The weights of `n_rows` rows, of 256 in all. -/
def rowWeights (nRows firstWeight midWeight : Nat) : List Nat :=
  let mids := List.replicate (nRows - 2) (midWeight / 256)
  firstWeight / 256 :: mids ++ [(2 ^ 32 + 256 - (firstWeight / 256 + mids.sum)) % 2 ^ 32]

def weigh (ws bs : List Nat) : UInt8 :=
  ((List.zipWith (· * ·) ws bs).sum % 2 ^ 32 / 256).toUInt8

def weightNRows (g : ScInst) (nRows firstWeight midWeight : Nat) : Option Row := do
  check (2 ≤ nRows ∧ nRows ≤ maxRowsAp)
  if nRows = 2 then weightTwoRows g firstWeight
  else
    return (List.range g.outRowNbytes).map fun i =>
      weigh (rowWeights nRows firstWeight midWeight)
        ((List.range nRows).map fun u => byte (g.rows u) i)

/-! ## One input row -/

variable (horizScale : Row → Row)

def saveRow (g : ScInst) (src : Row) : Option ScInst := do
  check (g.nSavedRows < g.nAllocedRows ∧ g.nSavedRows < maxRowsAp)
  return { g with
    rows := Function.update g.rows g.nSavedRows (horizScale src)
    nSavedRows := (g.nSavedRows + 1) % 256 }

def clampWeight (invVertPos : Int) : Nat :=
  if 0x10000 - invVertPos < 0 then 0
  else if 0x10000 < 0x10000 - invVertPos then 0x10000
  else (0x10000 - invVertPos).toNat

/-- `for (u=0; u<n_out_rows; u++)` of the up-scaling. -/
def upRows (g : ScInst) : Nat → Option (List Row × ScInst)
  | 0 => some ([], g)
  | n + 1 => do
    let r ← weightTwoRows g (clampWeight g.invVertPos)
    let (rs, g) ← upRows { g with invVertPos := g.invVertPos + g.invVertFac } n
    return (r :: rs, g)

def scaleUp (g : ScInst) : Option (List Row × ScInst) :=
  if g.nSavedRows = 2 then do
    let pos := g.vertPos + g.vertFac
    let (rs, g) ← upRows { g with vertPos := pos % 0x10000 } (pos / 0x10000)
    return (rs, { g with
      invVertPos := g.invVertPos - 0x10000
      nSavedRows := 1
      rows := Function.update (Function.update g.rows 0 (g.rows 1)) 1 (g.rows 0) })
  else some ([], g)

def scaleDown (g : ScInst) : Option (List Row × ScInst) :=
  let newPos := g.vertPos + (g.nSavedRows - 1) * g.vertFac
  if newPos / 0x10000 ≠ 0 then do
    let r ← weightNRows g g.nSavedRows g.vertPos g.vertFac
    let last := g.nSavedRows - 1
    return ([r], { g with
      vertPos := newPos % 0x10000
      rows := Function.update (Function.update g.rows 0 (g.rows last)) last (g.rows 0)
      nSavedRows := 1 })
  else some ([], g)

/-- The input row saved; the first one twice, by a call of the function in itself. -/
def saveInput (g : ScInst) (src : Row) : Option ScInst := do
  let g ← saveRow horizScale g src
  if g.nSavedRows = 1 then saveRow horizScale g src else return g

def emitRows (g : ScInst) : Option (List Row × ScInst) :=
  if 0x10000 ≤ g.vertFac then scaleUp g else scaleDown g

/-- `contone_scale_row`, with `horizScale` for `gray_horiz_scale` or `color_horiz_scale`. -/
def contoneScaleRow (g : ScInst) (src : Row) : Option (List Row × ScInst) :=
  if g.fast = true ∧ g.vertFac ≤ 0x10000 then
    let pos := g.vertPos + g.vertFac
    some (List.replicate (pos / 0x10000) (horizScale src), { g with vertPos := pos % 0x10000 })
  else do
    let g ← saveInput horizScale g src
    emitRows g

/-! ## The calls -/

/-- What a call of `scale_convert` returns. -/
structure Answer where
  inUsed : Nat
  inNextPos : UInt32
  outRow : Option Row
  outThisPos : UInt32
  consumedRow : Bool
  producedRow : Bool
  readyForData : Bool
  done : Bool

/-- The part of `scale_convert` behind `finish`. -/
def scaleFinish (g : ScInst) (flushing consumed : Bool) (outRow : Option Row) :
    Answer × ScInst :=
  let inUsed := if consumed then g.inRowNbytes else 0
  let outUsed := if outRow.isSome then g.outRowNbytes else 0
  let g' := { g with
    inNextPos := g.inNextPos + inUsed.toUInt32
    outNextPos := g.outNextPos + outUsed.toUInt32 }
  ({ inUsed := inUsed
     inNextPos := g'.inNextPos
     outRow := outRow
     outThisPos := g.outNextPos
     consumedRow := decide (0 < inUsed)
     producedRow := decide (0 < outUsed)
     readyForData := decide (g.nMoreHeldOutRows = 0)
     done := flushing && decide (g.nMoreFlush = 0) && decide (g.nMoreHeldOutRows = 0) }, g')

/-- `scale_convert`; `none` is a call with a NULL input buffer. -/
def scaleConvert (g : ScInst) (input : Option Row) : Option (Answer × ScInst) :=
  if 0 < g.nMoreHeldOutRows then
    some (scaleFinish { g with
      nMoreHeldOutRows := g.nMoreHeldOutRows - 1
      iNextHeldOutRow := g.iNextHeldOutRow + 1 } input.isNone false
      (some (g.heldOutRows g.iNextHeldOutRow)))
  else
    match input with
    | none => do
      -- a flush call with rows left would go on with a NULL row, which is asserted against
      check (g.nMoreFlush = 0)
      return scaleFinish g true false none
    | some src => do
      let (rs, g) ← contoneScaleRow horizScale g src
      check (rs.length ≤ g.nMaxOutRows)
      match rs with
      | [] => return scaleFinish g false true none
      | r :: held =>
        return scaleFinish { g with
          nMoreHeldOutRows := held.length
          iNextHeldOutRow := 1
          heldOutRows := fun i => rs.getD i [] } false true (some r)

def scaleRun (g : ScInst) : List (Option Row) → Option (List Answer × ScInst)
  | [] => some ([], g)
  | c :: cs => do
    let (a, g) ← scaleConvert horizScale g c
    let (as, g) ← scaleRun g cs
    return (a :: as, g)

/-! ## Positions -/

structure Positions where
  saved : Nat
  pos : Nat
  inv : Int
  deriving DecidableEq, Repr

/-- A blend: the number of rows that go in, and the weight of the first one. -/
abbrev Blend := Nat × Nat

def Positions.filled (s : Positions) : Nat := s.saved + if s.saved = 0 then 2 else 1

def Positions.span (s : Positions) (f : Nat) : Nat := s.pos + (s.filled - 1) * f

def advance (fast : Bool) (f : Nat) (s : Positions) : List Blend × Positions :=
  if fast = true then
    (List.replicate ((s.pos + f) / 0x10000) (1, 0x10000),
      { s with pos := (s.pos + f) % 0x10000 })
  else if 0x10000 ≤ f then
    ((List.range ((s.pos + f) / 0x10000)).map fun (u : Nat) =>
        (2, clampWeight (s.inv + u * inverse f)),
      ⟨1, (s.pos + f) % 0x10000, s.inv + ((s.pos + f) / 0x10000 : Nat) * inverse f - 0x10000⟩)
  else if s.span f < 0x10000 then ([], { s with saved := s.filled })
  else ([(s.filled, s.pos)], ⟨1, s.span f % 0x10000, s.inv⟩)

def start (fast : Bool) (f : Nat) : Positions where
  saved := 0
  pos := if fast = true ∨ 0x10000 ≤ f then 0 else f
  inv := if fast = false ∧ 0x10000 ≤ f then inverse f else 0

/-- The positions after `n` rows. -/
def positions (fast : Bool) (f : Nat) : Nat → Positions
  | 0 => start fast f
  | n + 1 => (advance fast f (positions fast f n)).2

/-- The output rows of the first `n` rows. -/
def made (fast : Bool) (f : Nat) : Nat → Nat
  | 0 => 0
  | n + 1 => made fast f n + (advance fast f (positions fast f n)).1.length

def Factor (fast : Bool) (f : Nat) : Prop :=
  0x4000 ≤ f ∧ f ≤ 0x60000 ∧ (fast = true → f ≤ 0x10000)

/-- The rows saved between two calls, and how far they reach. -/
def Sound (fast : Bool) (f : Nat) (s : Positions) : Prop :=
  if fast then s.saved = 0 ∧ s.pos < 0x10000
  else if 0x10000 ≤ f then s.saved ≤ 1 ∧ s.pos < 0x10000
  else s.pos ≤ f ∧ (s.saved = 0 ∧ s.pos = f ∨ 1 ≤ s.saved ∧ s.pos + (s.saved - 1) * f < 0x10000)

theorem sound_start {fast : Bool} {f : Nat} : Sound fast f (start fast f) := by
  unfold Sound start
  cases fast with
  | true => simp
  | false =>
    by_cases hup : 0x10000 ≤ f
    · simp [hup]
    · simp [hup]

section Advance

variable {fast : Bool} {f : Nat} {s : Positions}

theorem advance_fast (h : fast = true) : advance fast f s
    = (List.replicate ((s.pos + f) / 0x10000) (1, 0x10000),
        { s with pos := (s.pos + f) % 0x10000 }) := if_pos h

theorem advance_up (h : fast = false) (hf : 0x10000 ≤ f) : advance fast f s
    = ((List.range ((s.pos + f) / 0x10000)).map fun (u : Nat) =>
          (2, clampWeight (s.inv + u * inverse f)),
        ⟨1, (s.pos + f) % 0x10000,
          s.inv + ((s.pos + f) / 0x10000 : Nat) * inverse f - 0x10000⟩) := by
  rw [advance, if_neg (by simp [h]), if_pos hf]

theorem advance_none (h : fast = false) (hf : ¬ 0x10000 ≤ f) (hs : s.span f < 0x10000) :
    advance fast f s = ([], { s with saved := s.filled }) := by
  rw [advance, if_neg (by simp [h]), if_neg hf, if_pos hs]

theorem advance_one (h : fast = false) (hf : ¬ 0x10000 ≤ f) (hs : ¬ s.span f < 0x10000) :
    advance fast f s = ([(s.filled, s.pos)], ⟨1, s.span f % 0x10000, s.inv⟩) := by
  rw [advance, if_neg (by simp [h]), if_neg hf, if_neg hs]

theorem Positions.two_le_filled (s : Positions) : 2 ≤ s.filled := by
  unfold Positions.filled
  split
  · omega
  · omega

theorem Sound.down (h : fast = false) (hf : ¬ 0x10000 ≤ f) (hs : Sound fast f s) :
    s.pos ≤ f ∧ s.pos + (s.filled - 2) * f < 0x10000 := by
  unfold Sound at hs
  rw [if_neg (by simp [h]), if_neg hf] at hs
  obtain ⟨hpos, ⟨h0, rfl⟩ | ⟨h1, hlt⟩⟩ := hs
  · rw [Positions.filled, if_pos h0, h0]
    lia
  · rw [Positions.filled, if_neg (by lia), show s.saved + 1 - 2 = s.saved - 1 by lia]
    exact ⟨hpos, hlt⟩

theorem Positions.span_eq (s : Positions) (f : Nat) :
    s.span f = s.pos + (s.filled - 2) * f + f := by
  have h2 := s.two_le_filled
  rw [Positions.span, show s.filled - 1 = s.filled - 2 + 1 by lia, Nat.succ_mul, Nat.add_assoc]

/-- **Step lemma.** -/
theorem sound_advance (h : Sound fast f s) : Sound fast f (advance fast f s).2 := by
  by_cases hfast : fast = true
  · rw [advance_fast hfast, Sound, if_pos hfast]
    rw [Sound, if_pos hfast] at h
    exact ⟨h.1, Nat.mod_lt _ (by decide)⟩
  · have hslow : fast = false := by simpa using hfast
    by_cases hup : 0x10000 ≤ f
    · rw [advance_up hslow hup, Sound, if_neg hfast, if_pos hup]
      exact ⟨Nat.le_refl 1, Nat.mod_lt _ (by decide)⟩
    · have hdown := h.down hslow hup
      have hspan := s.span_eq f
      by_cases hout : s.span f < 0x10000
      · have hfill := s.two_le_filled
        rw [advance_none hslow hup hout, Sound, if_neg hfast, if_neg hup]
        exact ⟨hdown.1, .inr ⟨by dsimp only; lia, hout⟩⟩
      · rw [advance_one hslow hup hout, Sound, if_neg hfast, if_neg hup]
        dsimp only
        exact ⟨by lia, .inr ⟨Nat.le_refl 1, by lia⟩⟩

theorem sound_positions (fast : Bool) (f n : Nat) : Sound fast f (positions fast f n) := by
  induction n with
  | zero => exact sound_start
  | succ n ih => exact sound_advance ih

def reach (fast : Bool) (f : Nat) (s : Positions) : Nat :=
  if fast = true ∨ 0x10000 ≤ f then s.pos else s.pos + (s.saved - 1) * f

theorem reach_pos (h : fast = true ∨ 0x10000 ≤ f) : reach fast f s = s.pos := if_pos h

theorem reach_down (h : ¬ (fast = true ∨ 0x10000 ≤ f)) :
    reach fast f s = s.pos + (s.saved - 1) * f := if_neg h

theorem reach_lt (h : Sound fast f s) (hs : fast = false ∧ ¬ 0x10000 ≤ f → s.saved ≠ 0) :
    reach fast f s < 0x10000 := by
  unfold reach
  unfold Sound at h
  by_cases hfast : fast = true
  · rw [if_pos hfast] at h
    rw [if_pos (.inl hfast)]
    exact h.2
  · rw [if_neg hfast] at h
    by_cases hup : 0x10000 ≤ f
    · rw [if_pos hup] at h
      rw [if_pos (.inr hup)]
      exact h.2
    · rw [if_neg hup] at h
      rw [if_neg (not_or.mpr ⟨hfast, hup⟩)]
      rcases h.2 with ⟨h0, -⟩ | ⟨-, hlt⟩
      · exact absurd h0 (hs ⟨by simpa using hfast, hup⟩)
      · exact hlt

theorem reach_advance (h : Sound fast f s) :
    0x10000 * (advance fast f s).1.length + reach fast f (advance fast f s).2
      = (if s.saved = 0 ∧ fast = false ∧ ¬ 0x10000 ≤ f then s.pos else reach fast f s) + f := by
  by_cases hfast : fast = true
  · rw [advance_fast hfast, reach_pos (.inl hfast), reach_pos (.inl hfast),
      if_neg (by simp [hfast]), List.length_replicate]
    exact Nat.div_add_mod _ _
  · have hslow : fast = false := by simpa using hfast
    by_cases hup : 0x10000 ≤ f
    · rw [advance_up hslow hup, reach_pos (.inr hup), reach_pos (.inr hup),
        if_neg (by simp [hup]), List.length_map, List.length_range]
      exact Nat.div_add_mod _ _
    · have hdown := h.down hslow hup
      have hspan := s.span_eq f
      have hreach : ∀ t, reach fast f t = t.pos + (t.saved - 1) * f := fun t =>
        reach_down (not_or.mpr ⟨hfast, hup⟩)
      have hbefore : (if s.saved = 0 ∧ fast = false ∧ ¬ 0x10000 ≤ f then s.pos
          else reach fast f s) + f = s.span f := by
        rw [hspan, Positions.filled, hreach]
        by_cases h0 : s.saved = 0
        · rw [if_pos ⟨h0, hslow, hup⟩, if_pos h0, h0]
          lia
        · rw [if_neg fun h => h0 h.1, if_neg h0, show s.saved + 1 - 2 = s.saved - 1 by lia]
      rw [hbefore]
      by_cases hout : s.span f < 0x10000
      · rw [advance_none hslow hup hout, hreach]
        simp [Positions.span]
      · rw [advance_one hslow hup hout, hreach]
        simp only [List.length_singleton, Nat.sub_self, Nat.zero_mul]
        lia

theorem positions_succ (n : Nat) :
    positions fast f (n + 1) = (advance fast f (positions fast f n)).2 := rfl

theorem made_succ (n : Nat) :
    made fast f (n + 1) = made fast f n + (advance fast f (positions fast f n)).1.length := rfl

theorem saved_pos (n : Nat) (hslow : fast = false) : (positions fast f (n + 1)).saved ≠ 0 := by
  rw [positions]
  by_cases hup : 0x10000 ≤ f
  · rw [advance_up hslow hup]
    exact Nat.one_ne_zero
  · by_cases hout : (positions fast f n).span f < 0x10000
    · have := (positions fast f n).two_le_filled
      rw [advance_none hslow hup hout]
      dsimp only
      omega
    · rw [advance_one hslow hup hout]
      exact Nat.one_ne_zero

/-- **Run lemma.** Where the positions stand: a slow down-scaler is one row ahead. -/
theorem made_add_reach (fast : Bool) (f n : Nat) :
    0x10000 * made fast f (n + 1) + reach fast f (positions fast f (n + 1))
      = (if fast = true ∨ 0x10000 ≤ f then n + 1 else n + 2) * f := by
  induction n with
  | zero =>
    have hstep := reach_advance (sound_positions fast f 0)
    rw [made_succ, positions_succ, made, Nat.zero_add, hstep, positions]
    by_cases hc : fast = true ∨ 0x10000 ≤ f
    · have hnot : ¬ ((start fast f).saved = 0 ∧ fast = false ∧ ¬ 0x10000 ≤ f) := by
        rintro ⟨-, h1, h2⟩
        rcases hc with h | h
        · rw [h] at h1
          cases h1
        · exact h2 h
      rw [if_pos hc, if_neg hnot, reach_pos hc, start, if_pos hc]
      dsimp only
      omega
    · have hne := not_or.mp hc
      rw [if_neg hc, if_pos ⟨rfl, by simpa using hne.1, hne.2⟩, start, if_neg hc]
      dsimp only
      omega
  | succ n ih =>
    have hstep := reach_advance (sound_positions fast f (n + 1))
    rw [if_neg (by rintro ⟨h0, h1, -⟩; exact saved_pos n h1 h0)] at hstep
    rw [made_succ, positions_succ (n + 1), Nat.mul_add, Nat.add_assoc, hstep, ← Nat.add_assoc, ih]
    split
    · ring
    · ring

theorem made_eq (n : Nat) : made fast f (n + 1)
    = (if fast = true ∨ 0x10000 ≤ f then n + 1 else n + 2) * f / 0x10000 := by
  have hlt := reach_lt (sound_positions fast f (n + 1))
    (fun h => saved_pos n h.1)
  have hrun := made_add_reach fast f n
  lia

def alloced (fast : Bool) (f : Nat) : Nat :=
  if fast then 0
  else if 0x10000 ≤ f then 2 else (inverse f + 0xffff) / 0x10000 % 256 + 1

theorem inverse_le (hf : 0x4000 ≤ f) : inverse f ≤ 0x40001 := by
  have hdiv : 0x80000000 / f ≤ 0x80000000 / 0x4000 := Nat.div_le_div_left hf (by decide)
  unfold inverse
  omega

theorem alloced_le (fast : Bool) (hf : 0x4000 ≤ f) : alloced fast f ≤ maxRowsAp := by
  have hinv := inverse_le hf
  unfold alloced maxRowsAp
  split
  · lia
  · split
    · lia
    · lia

theorem filled_le_alloced (hslow : fast = false) (hf : 0x4000 ≤ f) (h : Sound fast f s) :
    s.filled ≤ alloced fast f := by
  have hinv := inverse_le hf
  unfold alloced
  rw [if_neg (by simp [hslow])]
  by_cases hup : 0x10000 ≤ f
  · rw [if_pos hup]
    rw [Sound, if_neg (by simp [hslow]), if_pos hup] at h
    unfold Positions.filled
    split
    · lia
    · lia
  · rw [if_neg hup]
    have hdown := (h.down hslow hup).2
    have htwo := s.two_le_filled
    -- in units of 2^31/f rows of one output row each
    have hrow : 0x8000 * (s.filled - 2) ≤ 0x80000000 / f := by
      rw [Nat.le_div_iff_mul_le (by lia), Nat.mul_assoc]
      lia
    unfold inverse at hinv ⊢
    lia

theorem mem_advance (hslow : fast = false) (hf : 0x4000 ≤ f) (h : Sound fast f s) {b : Blend}
    (hb : b ∈ (advance fast f s).1) : b.1 = s.filled ∧ b.1 ≤ maxRowsAp ∧ b.2 ≤ 0x10000 := by
  have hfill := (filled_le_alloced hslow hf h).trans (alloced_le _ hf)
  by_cases hup : 0x10000 ≤ f
  · rw [advance_up hslow hup] at hb
    obtain ⟨u, -, rfl⟩ := List.mem_map.mp hb
    rw [Sound, if_neg (by simp [hslow]), if_pos hup] at h
    have htwo : s.filled = 2 := by
      unfold Positions.filled
      split
      · lia
      · lia
    refine ⟨htwo.symm, two_le_maxRowsAp, ?_⟩
    unfold clampWeight
    split
    · lia
    · split
      · lia
      · lia
  · by_cases hout : s.span f < 0x10000
    · rw [advance_none hslow hup hout] at hb
      cases hb
    · rw [advance_one hslow hup hout] at hb
      rw [List.mem_singleton.mp hb]
      exact ⟨rfl, hfill, by have := (h.down hslow hup).1; lia⟩

theorem length_advance_le (hf : Factor fast f) (h : Sound fast f s) :
    (advance fast f s).1.length ≤ (f + 0xffff) / 0x10000 := by
  obtain ⟨hlow, -, hfast'⟩ := hf
  unfold Sound at h
  by_cases hfast : fast = true
  · rw [if_pos hfast] at h
    rw [advance_fast hfast, List.length_replicate]
    lia
  · have hslow : fast = false := by simpa using hfast
    rw [if_neg hfast] at h
    by_cases hup : 0x10000 ≤ f
    · rw [if_pos hup] at h
      rw [advance_up hslow hup, List.length_map, List.length_range]
      lia
    · by_cases hout : s.span f < 0x10000
      · rw [advance_none hslow hup hout]
        exact Nat.zero_le _
      · rw [advance_one hslow hup hout, List.length_singleton]
        lia

end Advance

/-! ## The code follows the positions -/

def ScInst.at (g : ScInst) (s : Positions) (rows : Nat → Row) : ScInst :=
  { g with vertPos := s.pos, invVertPos := s.inv, nSavedRows := s.saved, rows := rows }

/-- An instance whose constants are those of a factor, at given positions. -/
structure Agrees (fast : Bool) (f : Nat) (s : Positions) (g : ScInst) : Prop where
  replicates : g.fast = fast
  fac : g.vertFac = f
  pos : g.vertPos = s.pos
  inv : g.invVertPos = s.inv
  saved : g.nSavedRows = s.saved
  invFac : g.invVertFac = inverse f
  alloc : g.nAllocedRows = alloced fast f
  maxOut : g.nMaxOutRows = (f + 0xffff) / 0x10000

theorem Agrees.at {fast : Bool} {f : Nat} {s : Positions} {g : ScInst}
    (h : Agrees fast f s g) (s' : Positions) (rows : Nat → Row) :
    Agrees fast f s' (g.at s' rows) :=
  ⟨h.replicates, h.fac, rfl, rfl, rfl, h.invFac, h.alloc, h.maxOut⟩

def madeRow (g : ScInst) (b : Blend) : Row := (weightNRows g b.1 b.2 g.vertFac).getD []

theorem weightTwoRows_some (g : ScInst) {w : Nat} (hw : w ≤ 0x10000) :
    ∃ r, weightTwoRows g w = some r := by
  have hk : (w + 0x1000) / 0x2000 ≤ 8 := by lia
  unfold weightTwoRows
  split
  · exact ⟨_, rfl⟩
  · exact ⟨_, rfl⟩
  · rename_i k h0 h8
    have hlt : (w + 0x1000) / 0x2000 < 8 := Nat.lt_of_le_of_ne hk h8
    rw [check_pos hlt]
    exact ⟨_, rfl⟩

theorem weightNRows_eq (g : ScInst) {b : Blend} (h2 : 2 ≤ b.1) (h6 : b.1 ≤ maxRowsAp)
    (hw : b.2 ≤ 0x10000) : weightNRows g b.1 b.2 g.vertFac = some (madeRow g b) := by
  obtain ⟨r, hr⟩ : ∃ r, weightNRows g b.1 b.2 g.vertFac = some r := by
    rw [weightNRows, check_pos ⟨h2, h6⟩]
    by_cases h : b.1 = 2
    · simpa [h] using weightTwoRows_some g hw
    · simp [h]
  rw [madeRow, hr]
  rfl

theorem weightTwoRows_eq (g : ScInst) {w : Nat} (hw : w ≤ 0x10000) :
    weightTwoRows g w = some (madeRow g (2, w)) := by
  have h := weightNRows_eq g (b := (2, w)) (Nat.le_refl 2) two_le_maxRowsAp hw
  rw [weightNRows, check_pos ⟨Nat.le_refl 2, two_le_maxRowsAp⟩] at h
  exact h

theorem clampWeight_le (i : Int) : clampWeight i ≤ 0x10000 := by
  unfold clampWeight
  split
  · lia
  · split
    · lia
    · lia

theorem upRows_eq (g : ScInst) (n : Nat) : upRows g n
    = some ((List.range n).map fun (u : Nat) =>
          madeRow g (2, clampWeight (g.invVertPos + u * g.invVertFac)),
        { g with invVertPos := g.invVertPos + n * g.invVertFac }) := by
  induction n generalizing g with
  | zero =>
    rw [upRows]
    simp
  | succ n ih =>
    rw [upRows, weightTwoRows_eq g (clampWeight_le _), Option.bind_eq_bind, Option.bind_some, ih,
      Option.bind_eq_bind, Option.bind_some, List.range_succ_eq_map, List.map_cons, List.map_map]
    have hrow : ∀ (x : Int) b, madeRow { g with invVertPos := x } b = madeRow g b := fun _ _ => rfl
    simp only [hrow, Function.comp_def, Nat.cast_zero, zero_mul, add_zero, Nat.cast_add,
      Nat.cast_one, add_mul, one_mul, Option.pure_def, Option.some.injEq, Prod.mk.injEq,
      List.cons.injEq, true_and]
    constructor
    · refine List.map_congr_left fun u _ => ?_
      rw [Nat.cast_succ]
      congr 3
      ring
    · congr 1
      ring

section Follow

variable {horizScale} {fast : Bool} {f : Nat} {s : Positions} {g : ScInst}

def filledRows (horizScale : Row → Row) (g : ScInst) (src : Row) : Nat → Row :=
  if g.nSavedRows = 0 then
    Function.update (Function.update g.rows 0 (horizScale src)) 1 (horizScale src)
  else Function.update g.rows g.nSavedRows (horizScale src)

def filledInst (horizScale : Row → Row) (g : ScInst) (s : Positions) (src : Row) : ScInst :=
  { g with rows := filledRows horizScale g src, nSavedRows := s.filled }

theorem saveInput_eq (hslow : fast = false) (hf : 0x4000 ≤ f) (hg : Agrees fast f s g)
    (hs : Sound fast f s) (src : Row) :
    saveInput horizScale g src = some (filledInst horizScale g s src) := by
  have hfill := filled_le_alloced hslow hf hs
  have hmax := alloced_le fast hf
  have hsaved := hg.saved
  have halloc := hg.alloc
  unfold maxRowsAp at hmax
  rw [saveInput, saveRow]
  by_cases h0 : s.saved = 0
  · rw [Positions.filled, if_pos h0] at hfill
    rw [check_pos ⟨by lia, by unfold maxRowsAp; lia⟩]
    simp only [Option.bind_eq_bind, Option.bind_some, Option.pure_def, hsaved, h0, Nat.zero_add,
      Nat.one_mod, if_true]
    rw [saveRow, check_pos ⟨by dsimp only; lia, by unfold maxRowsAp; dsimp only; lia⟩]
    simp [filledInst, filledRows, Positions.filled, hsaved, h0]
  · rw [Positions.filled, if_neg h0] at hfill
    rw [check_pos ⟨by lia, by unfold maxRowsAp; lia⟩]
    have hmod : (s.saved + 1) % 256 = s.saved + 1 := Nat.mod_eq_of_lt (by lia)
    simp only [Option.bind_eq_bind, Option.bind_some, Option.pure_def, hsaved, hmod]
    rw [if_neg (by lia)]
    simp [filledInst, filledRows, Positions.filled, hsaved, h0]

theorem emitRows_eq (hslow : fast = false) (hf : 0x4000 ≤ f) (hg : Agrees fast f s g)
    (hs : Sound fast f s) (rows : Nat → Row) :
    let g' := { g with rows := rows, nSavedRows := s.filled }
    let s' := (advance fast f s).2
    ∃ kept : Nat → Row,
      emitRows g' = some ((advance fast f s).1.map (madeRow g'), g.at s' kept)
        ∧ (s'.saved = 1 ∧ kept 0 = rows (s.filled - 1) ∨ s'.saved = s.filled ∧ kept = rows) := by
  intro g' s'
  have hblend : ∀ b ∈ (advance fast f s).1, weightNRows g' b.1 b.2 g'.vertFac
      = some (madeRow g' b) := by
    intro b hb
    obtain ⟨hn, h6, hw⟩ := mem_advance hslow hf hs hb
    exact weightNRows_eq g' (by rw [hn]; exact s.two_le_filled) h6 hw
  have hfac : g'.vertFac = f := hg.fac
  rw [emitRows, hfac]
  by_cases hup : 0x10000 ≤ f
  · have htwo : s.filled = 2 := by
      rw [Sound, if_neg (by simp [hslow]), if_pos hup] at hs
      unfold Positions.filled
      split
      · lia
      · lia
    have hpos : g'.vertPos + f = s.pos + f := by rw [show g'.vertPos = s.pos from hg.pos]
    refine ⟨Function.update (Function.update rows 0 (rows 1)) 1 (rows 0), ?_, .inl ?_⟩
    · have hadv : s' = ⟨1, (s.pos + f) % 0x10000,
          s.inv + ((s.pos + f) / 0x10000 : Nat) * inverse f - 0x10000⟩ := by
        rw [show s' = (advance fast f s).2 from rfl, advance_up hslow hup]
      rw [if_pos hup, scaleUp, if_pos htwo, hfac, hpos]
      dsimp only
      rw [upRows_eq, hadv, advance_up hslow hup]
      simp only [Option.bind_eq_bind, Option.bind_some, Option.pure_def, List.map_map, ScInst.at,
        g', hg.inv, hg.invFac, hg.fac, Option.some.injEq, Prod.mk.injEq]
      exact ⟨List.map_congr_left fun u _ => rfl, trivial⟩
    · rw [show s' = (advance fast f s).2 from rfl, advance_up hslow hup, htwo]
      simp
  · rw [if_neg hup, scaleDown]
    have hspan : g'.vertPos + (g'.nSavedRows - 1) * g'.vertFac = s.span f := by
      rw [hfac, show g'.vertPos = s.pos from hg.pos]
      rfl
    rw [hspan]
    by_cases hout : s.span f < 0x10000
    · refine ⟨rows, ?_, .inr ?_⟩
      · rw [show s' = (advance fast f s).2 from rfl, advance_none hslow hup hout]
        rw [if_neg (by rw [not_not]; exact Nat.div_eq_of_lt hout)]
        simp [ScInst.at, g', hg.pos, hg.inv]
      · rw [show s' = (advance fast f s).2 from rfl, advance_none hslow hup hout]
        exact ⟨rfl, rfl⟩
    · have hfirst := hblend (s.filled, s.pos) (by rw [advance_one hslow hup hout]; simp)
      refine ⟨Function.update (Function.update rows 0 (rows (s.filled - 1))) (s.filled - 1)
        (rows 0), ?_, .inl ?_⟩
      · rw [show s' = (advance fast f s).2 from rfl, advance_one hslow hup hout]
        rw [if_pos (by lia), show g'.nSavedRows = s.filled from rfl,
          show g'.vertPos = s.pos from hg.pos, hfirst]
        simp [ScInst.at, g', hg.inv]
      · have htwo := s.two_le_filled
        rw [show s' = (advance fast f s).2 from rfl, advance_one hslow hup hout]
        refine ⟨rfl, ?_⟩
        rw [Function.update_of_ne (by lia), Function.update_self]

theorem contoneScaleRow_slow (horizScale : Row → Row) (hslow : fast = false) (hf : 0x4000 ≤ f) (hg : Agrees fast f s g)
    (hs : Sound fast f s) (src : Row) :
    let s' := (advance fast f s).2
    let filled := filledRows horizScale g src
    ∃ kept : Nat → Row,
      contoneScaleRow horizScale g src
          = some ((advance fast f s).1.map (madeRow (filledInst horizScale g s src)),
            g.at s' kept)
        ∧ (s'.saved = 1 ∧ kept 0 = filled (s.filled - 1)
          ∨ s'.saved = s.filled ∧ kept = filled) := by
  intro s' filled
  obtain ⟨kept, hemit, hkept⟩ := emitRows_eq hslow hf hg hs filled
  refine ⟨kept, ?_, hkept⟩
  rw [contoneScaleRow, if_neg (by simp [hg.replicates, hslow]), saveInput_eq hslow hf hg hs]
  exact hemit

theorem contoneScaleRow_returns (hf : Factor fast f) (hg : Agrees fast f s g)
    (hs : Sound fast f s) (src : Row) :
    Returns (contoneScaleRow horizScale g src) fun r =>
      r.1.length = (advance fast f s).1.length
        ∧ ∃ rows, r.2 = g.at (advance fast f s).2 rows := by
  by_cases hfast : fast = true
  · have hfac := hf.2.2 hfast
    rw [contoneScaleRow, if_pos ⟨hg.replicates.trans hfast, hg.fac ▸ hfac⟩, hg.pos, hg.fac,
      advance_fast hfast]
    refine ⟨_, rfl, by simp, g.rows, ?_⟩
    simp only [ScInst.at, ← hg.saved, ← hg.inv, hg.fac]
  · obtain ⟨kept, hrow, -⟩ := contoneScaleRow_slow horizScale
      (by simpa using hfast) hf.1 hg hs src
    rw [hrow]
    exact ⟨_, rfl, by simp, kept, rfl⟩

end Follow

/-! ## Whole images -/

def consumed (as : List Answer) : Nat := as.countP (·.consumedRow)

def produced (as : List Answer) : Nat := as.countP (·.outRow.isSome)

/-- An instance after `n` input rows. -/
structure Reached (fast : Bool) (f n : Nat) (g : ScInst) : Prop where
  agrees : Agrees fast f (positions fast f n) g
  input : 0 < g.inRowNbytes
  noFlush : g.nMoreFlush = 0

/-- **Step lemma.** One call: at most one row goes in and one comes out, and what is held
are the rows made and not given out yet. -/
theorem scaleConvert_returns {fast : Bool} {f n : Nat} {g : ScInst} (hf : Factor fast f)
    (hg : Reached fast f n g) (input : Option Row) :
    Returns (scaleConvert horizScale g input) fun r =>
      ∃ n', n' = n + consumed [r.1] ∧ Reached fast f n' r.2
        ∧ made fast f n + produced [r.1] + r.2.nMoreHeldOutRows
          = made fast f n' + g.nMoreHeldOutRows
        ∧ (r.1.done = true → r.2.nMoreHeldOutRows = 0) := by
  unfold scaleConvert
  by_cases hheld : 0 < g.nMoreHeldOutRows
  · rw [if_pos hheld]
    refine ⟨_, rfl, n, ?_, ⟨?_, hg.input, hg.noFlush⟩, ?_, ?_⟩
    · simp [scaleFinish, consumed]
    · exact ⟨hg.agrees.replicates, hg.agrees.fac, hg.agrees.pos, hg.agrees.inv,
        hg.agrees.saved, hg.agrees.invFac, hg.agrees.alloc, hg.agrees.maxOut⟩
    · simp only [scaleFinish, produced, List.countP_singleton, Option.isSome_some, if_true]
      lia
    · simp only [scaleFinish, Bool.and_eq_true, decide_eq_true_eq]
      exact fun h => h.2
  · rw [if_neg hheld]
    have hzero : g.nMoreHeldOutRows = 0 := Nat.eq_zero_of_not_pos hheld
    cases input with
    | none =>
      refine Returns.check hg.noFlush ⟨_, rfl, n, ?_, ⟨?_, hg.input, hg.noFlush⟩, ?_, ?_⟩
      · simp [scaleFinish, consumed]
      · exact ⟨hg.agrees.replicates, hg.agrees.fac, hg.agrees.pos, hg.agrees.inv,
          hg.agrees.saved, hg.agrees.invFac, hg.agrees.alloc, hg.agrees.maxOut⟩
      · simp [scaleFinish, produced]
      · simp [scaleFinish, hzero]
    | some src =>
      have hsound := sound_positions fast f n
      refine Returns.bind (contoneScaleRow_returns hf hg.agrees hsound src) ?_
      rintro ⟨rs, g'⟩ ⟨hlen, rows, rfl⟩
      have hmax := length_advance_le hf hsound
      refine Returns.check (by
        rw [hlen, show (g.at _ rows).nMaxOutRows = g.nMaxOutRows from rfl, hg.agrees.maxOut]
        exact hmax) ?_
      have hag := hg.agrees.at (advance fast f (positions fast f n)).2 rows
      dsimp only at hlen
      cases rs with
      | nil =>
        refine ⟨_, rfl, n + 1, ?_, ⟨?_, hg.input, hg.noFlush⟩, ?_, ?_⟩
        · simp [scaleFinish, consumed, ScInst.at, hg.input]
        · exact ⟨hag.replicates, hag.fac, hag.pos, hag.inv, hag.saved, hag.invFac, hag.alloc,
            hag.maxOut⟩
        · rw [made_succ, ← hlen]
          simp [scaleFinish, produced, ScInst.at]
        · simp [scaleFinish]
      | cons r held =>
        refine ⟨_, rfl, n + 1, ?_, ⟨?_, hg.input, hg.noFlush⟩, ?_, ?_⟩
        · simp [scaleFinish, consumed, ScInst.at, hg.input]
        · exact ⟨hag.replicates, hag.fac, hag.pos, hag.inv, hag.saved, hag.invFac, hag.alloc,
            hag.maxOut⟩
        · rw [made_succ, ← hlen, hzero]
          simp only [scaleFinish, produced, List.countP_singleton, Option.isSome_some, if_true,
            List.length_cons]
          lia
        · simp [scaleFinish]

/-- **Run lemma.** -/
theorem scaleRun_returns {fast : Bool} {f : Nat} (hf : Factor fast f) (calls : List (Option Row))
    {n : Nat} {g : ScInst} (hg : Reached fast f n g) :
    Returns (scaleRun horizScale g calls) fun r =>
      ∃ n', n' = n + consumed r.1 ∧ Reached fast f n' r.2
        ∧ made fast f n + produced r.1 + r.2.nMoreHeldOutRows
          = made fast f n' + g.nMoreHeldOutRows
        ∧ (r.1 = [] → r.2 = g)
        ∧ (∀ a, r.1.getLast? = some a → a.done = true → r.2.nMoreHeldOutRows = 0) := by
  induction calls generalizing n g with
  | nil =>
    refine ⟨_, rfl, n, rfl, hg, rfl, fun _ => rfl, ?_⟩
    intro a ha
    cases ha
  | cons c cs ih =>
    rw [scaleRun]
    refine Returns.bind (scaleConvert_returns horizScale hf hg c) ?_
    rintro ⟨a, g₁⟩ ⟨n₁, hn₁, hg₁, hcount₁, hdone₁⟩
    refine Returns.bind (ih hg₁) ?_
    rintro ⟨as, g₂⟩ ⟨n₂, hn₂, hg₂, hcount₂, hnil, hdone₂⟩
    refine ⟨_, rfl, n₂, ?_, hg₂, ?_, (fun h => nomatch h), ?_⟩
    · simp only [consumed, List.countP_cons, List.countP_nil] at hn₁ hn₂ ⊢
      lia
    · simp only [produced, List.countP_cons, List.countP_nil] at hcount₁ hcount₂ ⊢
      lia
    · intro b hb hbd
      cases as with
      | nil =>
        rw [List.getLast?_singleton, Option.some.injEq] at hb
        subst hb
        dsimp only at hnil ⊢
        rw [hnil rfl]
        exact hdone₁ hbd
      | cons a' as => exact hdone₂ b (by rwa [List.getLast?_cons_cons] at hb) hbd

theorem scaleOpen_returns {fast : Bool} {f : Nat} (hlow : 0x4000 ≤ f) (hhigh : f ≤ 0x60000)
    {inRow : Nat} (outRow : Nat) (hin : 0 < inRow) :
    Returns (scaleOpen fast f inRow outRow) fun g =>
      Reached (fast && decide (¬ 0x10000 < f)) f 0 g ∧ g.nMoreHeldOutRows = 0 := by
  have hheld : (f + 0xffff) / 0x10000 ≤ heldArraySize := by
    unfold heldArraySize
    lia
  refine Returns.check (.inr ⟨hlow, hhigh⟩) (Returns.check hheld ⟨_, rfl, ?_, rfl⟩)
  refine ⟨⟨rfl, rfl, ?_, ?_, rfl, rfl, ?_, rfl⟩, hin, rfl⟩
  · simp [positions, start]
  · simp [positions, start]
  · simp [alloced]

/-- Replicating and up-scaling make as many rows as announced; slow down-scaling does where
one more row would not have made one more. -/
def Lands (fast : Bool) (f n : Nat) : Prop :=
  fast = true ∧ f ≤ 0x10000 ∨ 0x10000 ≤ f ∨ n * f % 0x10000 + f < 0x10000

theorem made_iff {fast : Bool} {f n : Nat} (hf : fast = true → f ≤ 0x10000) :
    made fast f n = n * f / 0x10000 ↔ Lands fast f n := by
  unfold Lands
  cases n with
  | zero =>
    refine iff_of_true (by simp [made]) ?_
    lia
  | succ n =>
    rw [made_eq]
    by_cases hc : fast = true ∨ 0x10000 ≤ f
    · refine iff_of_true (by rw [if_pos hc]) ?_
      rcases hc with h | h
      · exact .inl ⟨h, hf h⟩
      · exact .inr (.inl h)
    · have hne := not_or.mp hc
      rw [if_neg hc, or_iff_right (fun h => hne.1 h.1), or_iff_right hne.2,
        show (n + 2) * f = (n + 1) * f + f by ring]
      lia

theorem saved_le {fast : Bool} {f : Nat} {s : Positions} (hf : 0x4000 ≤ f)
    (hs : Sound fast f s) : s.saved ≤ alloced fast f := by
  by_cases hfast : fast = true
  · rw [Sound, if_pos hfast] at hs
    rw [hs.1]
    exact Nat.zero_le _
  · have hfill := filled_le_alloced (by simpa using hfast) hf hs
    exact (Nat.le_add_right _ _).trans hfill

/-- Every sequence of calls returns: no row is saved outside the rows allocated, no input
row makes more rows than there is room for. After a call that is done, the height is the
one announced exactly where the last position lands. -/
theorem scaled_height_iff (horizScale : Row → Row) (fast : Bool) (f inRow outRow : Nat)
    (hlow : 0x4000 ≤ f) (hhigh : f ≤ 0x60000) (hin : 0 < inRow) (calls : List (Option Row)) :
    Returns (scaleOpen fast f inRow outRow >>= fun g => scaleRun horizScale g calls) fun r =>
      r.2.nSavedRows ≤ r.2.nAllocedRows
        ∧ ((∃ a, r.1.getLast? = some a ∧ a.done = true) →
          (produced r.1 = consumed r.1 * f / 0x10000 ↔ Lands fast f (consumed r.1))) := by
  refine Returns.bind (scaleOpen_returns hlow hhigh _ hin) fun g hg => ?_
  obtain ⟨hreached, hzero⟩ := hg
  have hfac : Factor (fast && decide (¬ 0x10000 < f)) f := by
    refine ⟨hlow, hhigh, fun h => ?_⟩
    simpa using (Bool.and_eq_true_iff.mp h).2
  refine (scaleRun_returns horizScale hfac calls hreached).mono fun r hr => ?_
  obtain ⟨n, hn, hag, hcount, -, hdone⟩ := hr
  constructor
  · rw [hag.agrees.saved, hag.agrees.alloc]
    exact saved_le hlow (sound_positions _ _ n)
  · rintro ⟨a, ha, had⟩
    have hheld := hdone a ha had
    have hmade : produced r.1 = made (fast && decide (¬ 0x10000 < f)) f (consumed r.1) := by
      rw [hn, Nat.zero_add, hzero, hheld] at hcount
      simpa [made] using hcount
    rw [hmade, made_iff hfac.2.2]
    unfold Lands
    by_cases hup : 0x10000 < f
    · exact iff_of_true (.inr (.inl (by omega))) (.inr (.inl (by omega)))
    · simp [hup]

/-- Three rows made one and a half times as high. -/
theorem scaled_height_enlarged :
    Returns (scaleOpen false 0x18000 1 1 >>= fun g =>
        scaleRun id g [some [1], some [2], none, some [3], none]) fun r =>
      r.2.nSavedRows ≤ r.2.nAllocedRows
        ∧ ((∃ a, r.1.getLast? = some a ∧ a.done = true) →
          (produced r.1 = consumed r.1 * 0x18000 / 0x10000
            ↔ Lands false 0x18000 (consumed r.1))) :=
  scaled_height_iff id false 0x18000 1 1 (by decide) (by decide) (by decide)
    [some [1], some [2], none, some [3], none]

/-- One row made half as high: one row comes out, none was announced. -/
theorem scaled_height_halved :
    ∃ r, (scaleOpen false 0x8000 1 1 >>= fun g => scaleRun id g [some [7], none]) = some r
      ∧ (∃ a, r.1.getLast? = some a ∧ a.done = true)
      ∧ produced r.1 ≠ consumed r.1 * 0x8000 / 0x10000 := by
  refine ⟨_, rfl, ⟨_, rfl, rfl⟩, ?_⟩
  decide

end Hplip.Ip.Scale
