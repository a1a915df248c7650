import Mathlib
import Hplip.Hpcups.CommonDefinitions

/-!
# Rows and pages of a job (Job.cpp)

`SendRasters` passes rows to the pipeline. Blank rows are only counted, if the encapsulator can
skip them, and the skip is sent in front of the next row. `NewPage` ejects the page, and puts a
blank row on a page that has had none.

The counter of skipped rows is a number: no page has 2 ^ 32 rows.
-/

namespace Hplip.Hpcups.Job

open DriverError

/-- `RASTERDATA`, as the pipeline gets it. -/
structure Raster where
  blackSize : Nat
  black : Option (List UInt8)
  colorSize : Nat
  color : Option (List UInt8)
  deriving DecidableEq

inductive Act
  | setLastBand
  | flush
  | sendCAPy (rows : Nat)
  | execute (raster : Raster)
  | formFeed
  | endJob
  deriving DecidableEq

structure Answers where
  canSkipRasters : Bool
  unpackBits : Bool
  sendCAPy : DriverError
  execute : DriverError
  formFeed : DriverError

/-- `Job`; the pipeline is there or not. -/
structure State where
  hasPipeline : Bool
  skipcount : Nat
  bDataSent : Bool

structure Outcome where
  err : DriverError
  job : State
  acts : List Act

/-- The blank raster of `setBlankRaster`. -/
def blankRaster (width : Nat) : List UInt8 := List.replicate (width * 3) 0xFF

/-- The part of the black raster that the pipeline reads: one byte for each bit. -/
def unpackBits (width : Nat) (data : List UInt8) : List UInt8 :=
  (List.range width).map fun n =>
    if data.getD (n / 8) 0 &&& (0x80 >>> UInt8.ofNat (n % 8)) ≠ 0 then 1 else 0

def rasterOf (width : Nat) (unpack : Bool) (black color : Option (List UInt8)) : Raster where
  blackSize := if black.isSome then width else 0
  black := if unpack then black.map (unpackBits width) else black
  colorSize := if color.isSome then width * 3 else 0
  color := color

def sendRasters (width : Nat) (e : Answers) (job : State) (black color : Option (List UInt8)) :
    Outcome :=
  if ¬ job.hasPipeline then ⟨systemError, job, []⟩
  else if black = none ∧ color = none ∧ e.canSkipRasters then
    ⟨noError, { job with skipcount := job.skipcount + 1 }, []⟩
  else
    let color := if black = none ∧ color = none then some (blankRaster width) else color
    let skips := if 0 < job.skipcount then [Act.flush, .sendCAPy job.skipcount] else []
    -- the result of SendCAPy is overwritten with the one of Execute
    ⟨e.execute, { job with skipcount := 0, bDataSent := true },
      skips ++ [.execute (rasterOf width e.unpackBits black color)]⟩

def newPage (width : Nat) (e : Answers) (job : State) : Outcome :=
  let blank :=
    if ¬ job.bDataSent ∧ 0 < job.skipcount then
      sendRasters width e { job with skipcount := 0 } none (some (blankRaster width))
    else ⟨noError, job, []⟩
  let acts := Act.setLastBand :: (blank.acts ++ [.flush, .formFeed])
  if e.formFeed ≠ noError then ⟨e.formFeed, blank.job, acts⟩
  else ⟨noError, { blank.job with bDataSent := false, skipcount := 0 }, acts⟩

/-- `Cleanup`, when the client does not eject its last page. The encapsulator cleans up first,
with a result of its own. -/
def cleanup (width : Nat) (e : Answers) (encap : DriverError) (job : State) :
    DriverError × List Act :=
  if encap ≠ noError then (encap, [])
  else (noError, (if job.bDataSent then (newPage width e job).acts else []) ++ [.endJob])

inductive Call
  | sendRasters (e : Answers) (black color : Option (List UInt8))
  | newPage (e : Answers)

def Call.run (width : Nat) (job : State) : Call → Outcome
  | .sendRasters e black color => Job.sendRasters width e job black color
  | .newPage e => Job.newPage width e job

/-- A job after `Init`. -/
def opened : State := ⟨true, 0, false⟩

/-! ## What is on a page -/

def Act.height : Act → Nat
  | .sendCAPy rows => rows
  | .execute _ => 1
  | _ => 0

def heights (acts : List Act) : Nat := (acts.map Act.height).sum

def Act.IsRow : Act → Prop
  | .execute _ => True
  | _ => False

instance (a : Act) : Decidable a.IsRow := by
  cases a <;> (unfold Act.IsRow; infer_instance)

def rowsIn (acts : List Act) : Nat := acts.countP fun a => decide a.IsRow

/-- The current page: the calls of `SendRasters` for it, how far the paper has moved, how many
rows were passed, and whether one of them was put there by `NewPage`. -/
structure Page where
  calls : Nat
  placed : Nat
  rows : Nat
  filled : Bool

def Page.blank : Page := ⟨0, 0, 0, false⟩

def Page.after (p : Page) (c : Call) (o : Outcome) : Page :=
  match c with
  | .sendRasters .. => ⟨p.calls + 1, p.placed + heights o.acts, p.rows + rowsIn o.acts, p.filled⟩
  | .newPage _ =>
    if o.err = noError then .blank
    else ⟨p.calls, p.placed + heights o.acts, p.rows + rowsIn o.acts,
      p.filled || decide (0 < rowsIn o.acts)⟩

def track (width : Nat) (calls : List Call) : State × Page :=
  calls.foldl (fun s c => let o := c.run width s.1; (o.job, s.2.after c o)) (opened, .blank)

/-- Every row is where it was asked for: as many rows were skipped and passed before it on the
page as there were calls. -/
def Placed (p : Page) (acts : List Act) : Prop :=
  ∀ pre r post, acts = pre ++ .execute r :: post → p.placed + heights pre = p.calls

/-- Nothing but a flush comes right before a skip. -/
def FlushedFirst (acts : List Act) : Prop :=
  ∀ pre n post, acts = pre ++ .sendCAPy n :: post → pre.getLast? = some .flush

/-! ## One call -/

section Calls

variable {width : Nat} {e : Answers} {job : State} {black color : Option (List UInt8)} {p : Page}

@[simp] theorem heights_nil : heights [] = 0 := rfl

@[simp] theorem heights_cons (a : Act) (acts : List Act) :
    heights (a :: acts) = a.height + heights acts := by
  simp [heights]

@[simp] theorem heights_append (acts acts' : List Act) :
    heights (acts ++ acts') = heights acts + heights acts' := by
  simp [heights]

@[simp] theorem rowsIn_append (acts acts' : List Act) :
    rowsIn (acts ++ acts') = rowsIn acts + rowsIn acts' := List.countP_append

variable (width e black color) in
theorem sendRasters_cases (hpipe : job.hasPipeline = true) :
    (sendRasters width e job black color = ⟨noError, { job with skipcount := job.skipcount + 1 }, []⟩
      ∧ black = none ∧ color = none) ∨
    ∃ r, sendRasters width e job black color =
      ⟨e.execute, { job with skipcount := 0, bDataSent := true },
        (if 0 < job.skipcount then [.flush, .sendCAPy job.skipcount] else []) ++ [.execute r]⟩ := by
  rw [sendRasters, if_neg (not_not.mpr hpipe)]
  by_cases hskip : black = none ∧ color = none ∧ e.canSkipRasters
  · rw [if_pos hskip]
    exact .inl ⟨rfl, hskip.1, hskip.2.1⟩
  · rw [if_neg hskip]
    exact .inr ⟨_, rfl⟩

theorem heights_skips (n : Nat) :
    heights (if 0 < n then [Act.flush, .sendCAPy n] else []) = n
      ∧ rowsIn (if 0 < n then [Act.flush, .sendCAPy n] else []) = 0 := by
  by_cases hn : 0 < n
  · rw [if_pos hn]
    exact ⟨by simp [Act.height], rfl⟩
  · rw [if_neg hn]
    exact ⟨(Nat.eq_zero_of_not_pos hn).symm, rfl⟩

/-- What is kept from call to call: the rows that were asked for were passed or are skipped
next, and rows were passed if the flag says so. -/
structure Accounted (job : State) (p : Page) : Prop where
  hasPipeline : job.hasPipeline = true
  total : p.filled = false → p.placed + job.skipcount = p.calls
  filled : p.filled = true → 0 < p.rows
  sent : job.bDataSent = true → 0 < p.rows
  unsent : job.bDataSent = false → p.filled = false ∧ p.placed = 0 ∧ p.rows = 0

theorem accounted_opened : Accounted opened .blank :=
  ⟨rfl, fun _ => rfl, nofun, nofun, fun _ => ⟨rfl, rfl, rfl⟩⟩

theorem Accounted.sendRasters (h : Accounted job p) (e : Answers)
    (black color : Option (List UInt8)) :
    let c := Call.sendRasters e black color
    Accounted (c.run width job).job (p.after c (c.run width job)) := by
  show Accounted (Job.sendRasters width e job black color).job
    (p.after (.sendRasters e black color) (Job.sendRasters width e job black color))
  rcases sendRasters_cases width e black color h.hasPipeline with ⟨hrun, -, -⟩ | ⟨r, hrun⟩
  · rw [hrun]
    refine ⟨h.hasPipeline, fun hfilled => ?_, h.filled, h.sent, h.unsent⟩
    have htotal := h.total hfilled
    show p.placed + heights [] + (job.skipcount + 1) = p.calls + 1
    rw [heights_nil]
    lia
  · rw [hrun]
    obtain ⟨hheight, -⟩ := heights_skips job.skipcount
    -- the row itself
    have hrows : 0 < p.rows + rowsIn
        ((if 0 < job.skipcount then [.flush, .sendCAPy job.skipcount] else []) ++ [.execute r]) := by
      rw [rowsIn_append]
      exact Nat.lt_of_lt_of_le Nat.zero_lt_one (Nat.le_add_left 1 _)
    refine ⟨h.hasPipeline, fun hfilled => ?_, fun _ => hrows, fun _ => hrows, nofun⟩
    have htotal := h.total hfilled
    show p.placed + heights (_ ++ [.execute r]) + 0 = p.calls + 1
    rw [heights_append, hheight]
    show p.placed + (job.skipcount + 1) + 0 = p.calls + 1
    lia

variable (width e) in
theorem newPage_acts (hpipe : job.hasPipeline = true) :
    (newPage width e job).acts = .setLastBand ::
      ((if ¬ job.bDataSent ∧ 0 < job.skipcount then
        [.execute (rasterOf width e.unpackBits none (some (blankRaster width)))] else [])
        ++ [.flush, .formFeed]) := by
  have hblank : (Job.sendRasters width e { job with skipcount := 0 } none
      (some (blankRaster width))).acts
      = [.execute (rasterOf width e.unpackBits none (some (blankRaster width)))] := by
    rw [Job.sendRasters, if_neg (not_not.mpr hpipe), if_neg fun h => nomatch h.2.1]
    rfl
  rw [newPage]
  dsimp only
  by_cases hsend : ¬ job.bDataSent ∧ 0 < job.skipcount
  · rw [if_pos hsend, if_pos hsend, hblank]
    split
    · rfl
    · rfl
  · rw [if_neg hsend, if_neg hsend]
    split
    · rfl
    · rfl

variable (width e) in
theorem newPage_job (hpipe : job.hasPipeline = true) :
    (newPage width e job).err = e.formFeed ∧
    (newPage width e job).job =
      if e.formFeed = noError then ⟨true, 0, false⟩
      else if ¬ job.bDataSent ∧ 0 < job.skipcount then ⟨true, 0, true⟩
      else job := by
  have hblank : (Job.sendRasters width e { job with skipcount := 0 } none
      (some (blankRaster width))).job = ⟨true, 0, true⟩ := by
    rw [Job.sendRasters, if_neg (not_not.mpr hpipe), if_neg fun h => nomatch h.2.1]
    exact congrArg (State.mk · 0 true) hpipe
  rw [newPage]
  dsimp only
  by_cases hsend : ¬ job.bDataSent ∧ 0 < job.skipcount
  · rw [if_pos hsend, if_pos hsend, hblank]
    by_cases he : e.formFeed = noError
    · rw [if_neg (not_not.mpr he), if_pos he, he]
      exact ⟨rfl, rfl⟩
    · rw [if_pos he, if_neg he]
      exact ⟨rfl, rfl⟩
  · rw [if_neg hsend, if_neg hsend]
    by_cases he : e.formFeed = noError
    · rw [if_neg (not_not.mpr he), if_pos he, he, ← hpipe]
      exact ⟨rfl, rfl⟩
    · rw [if_pos he, if_neg he]
      exact ⟨rfl, rfl⟩

variable (width e) in
theorem newPage_heights (hpipe : job.hasPipeline = true) :
    let n := if ¬ job.bDataSent ∧ 0 < job.skipcount then 1 else 0
    heights (newPage width e job).acts = n ∧ rowsIn (newPage width e job).acts = n := by
  intro n
  rw [newPage_acts width e hpipe]
  by_cases hsend : ¬ job.bDataSent ∧ 0 < job.skipcount
  · have hn : n = 1 := if_pos hsend
    rw [if_pos hsend, hn]
    exact ⟨rfl, rfl⟩
  · have hn : n = 0 := if_neg hsend
    rw [if_neg hsend, hn]
    exact ⟨rfl, rfl⟩

theorem Accounted.newPage (h : Accounted job p) (e : Answers) :
    let c := Call.newPage e
    Accounted (c.run width job).job (p.after c (c.run width job)) := by
  obtain ⟨herr, hjob⟩ := newPage_job width e h.hasPipeline
  obtain ⟨hheight, hrows⟩ := newPage_heights width e h.hasPipeline
  show Accounted (Job.newPage width e job).job (if (Job.newPage width e job).err = noError then
    .blank else ⟨p.calls, p.placed + heights (Job.newPage width e job).acts,
      p.rows + rowsIn (Job.newPage width e job).acts,
      p.filled || decide (0 < rowsIn (Job.newPage width e job).acts)⟩)
  rw [herr, hjob, hheight, hrows]
  by_cases he : e.formFeed = noError
  · rw [if_pos he, if_pos he]
    exact accounted_opened
  · rw [if_neg he, if_neg he]
    by_cases hsend : ¬ job.bDataSent ∧ 0 < job.skipcount
    · rw [if_pos hsend, if_pos hsend]
      refine ⟨rfl, fun hfilled => ?_, fun _ => Nat.succ_pos _, fun _ => Nat.succ_pos _, nofun⟩
      simp at hfilled
    · rw [if_neg hsend, if_neg hsend]
      simpa using h

theorem Accounted.after (h : Accounted job p) (c : Call) :
    Accounted (c.run width job).job (p.after c (c.run width job)) := by
  cases c with
  | sendRasters e black color => exact h.sendRasters e black color
  | newPage e => exact h.newPage e

variable (width) in
/-- **What is kept over whole runs.** -/
theorem accounted_track (calls : List Call) :
    Accounted (track width calls).1 (track width calls).2 := by
  induction calls using List.reverseRecOn with
  | nil => exact accounted_opened
  | append_singleton calls c ih =>
    rw [track, List.foldl_append]
    exact ih.after c

end Calls

/-! ## Positions -/

/-- What a call keeps to, on page `p`. The row that `NewPage` passes comes before anything else
on its page. -/
def Keeps (p : Page) (o : Outcome) : Call → Prop
  | .sendRasters e _ _ => (p.filled = false → Placed p o.acts)
    ∧ (rowsIn o.acts ≠ 0 → o.err = e.execute)
  | .newPage e => o.acts.getLast? = some .formFeed
    ∧ (0 < p.calls → 0 < p.rows + rowsIn o.acts)
    ∧ (∀ pre r post, o.acts = pre ++ .execute r :: post → p.placed + heights pre = 0)
    ∧ (e.formFeed = noError → o.job.skipcount = 0)
    ∧ o.err = e.formFeed

section Positions

variable {width : Nat} {job : State} {p : Page}

theorem eq_of_row_last {skips pre post : List Act} {r r' : Raster} (hskips : ∀ a ∈ skips, ¬ a.IsRow)
    (h : skips ++ [Act.execute r] = pre ++ .execute r' :: post) : pre = skips := by
  rcases List.append_eq_append_iff.mp h with ⟨l, rfl, hl⟩ | ⟨l, rfl, hl⟩
  · cases l with
    | nil => exact List.append_nil skips
    | cons a l =>
      obtain ⟨-, hl⟩ := List.cons.inj hl
      cases l <;> cases hl
  · cases l with
    | nil => exact (List.append_nil pre).symm
    | cons a l =>
      obtain ⟨rfl, -⟩ := List.cons.inj hl
      exact absurd trivial (hskips (.execute r') (by simp))

variable (width) in
theorem Accounted.placed (h : Accounted job p) (e : Answers) (black color : Option (List UInt8)) :
    (p.filled = false → Placed p (Job.sendRasters width e job black color).acts)
      ∧ FlushedFirst (Job.sendRasters width e job black color).acts := by
  rcases sendRasters_cases width e black color h.hasPipeline with ⟨hrun, -, -⟩ | ⟨r, hrun⟩
  · rw [hrun]
    constructor
    · intro _ pre r post hacts
      simp at hacts
    · intro pre n post hacts
      simp at hacts
  · rw [hrun]
    obtain ⟨hheight, -⟩ := heights_skips job.skipcount
    constructor
    · intro hfilled pre r' post hacts
      have hpre := eq_of_row_last (by split <;> simp [Act.IsRow]) hacts
      rw [hpre, hheight]
      exact h.total hfilled
    · intro pre n post hacts
      by_cases hskip : 0 < job.skipcount
      · rw [if_pos hskip] at hacts
        match pre, hacts with
        | [.flush], _ => rfl
        | _ :: _ :: _ :: pre, hacts =>
          have := congrArg List.length hacts
          simp at this
      · rw [if_neg hskip] at hacts
        have hacts : [Act.execute r] = pre ++ .sendCAPy n :: post := hacts
        have hmem : Act.sendCAPy n ∈ [Act.execute r] := by
          rw [hacts]
          exact List.mem_append_right _ List.mem_cons_self
        simp at hmem

theorem Accounted.keeps_newPage (h : Accounted job p) (e : Answers) :
    Keeps p (Job.newPage width e job) (.newPage e)
      ∧ FlushedFirst (Job.newPage width e job).acts := by
  obtain ⟨herr, hjob⟩ := newPage_job width e h.hasPipeline
  obtain ⟨hheight, hrows⟩ := newPage_heights width e h.hasPipeline
  have hacts := newPage_acts width e h.hasPipeline
  refine ⟨⟨?_, ?_, ?_, ?_, herr⟩, ?_⟩
  · rw [hacts]
    by_cases hsend : ¬ job.bDataSent ∧ 0 < job.skipcount
    · rw [if_pos hsend]
      rfl
    · rw [if_neg hsend]
      rfl
  · intro hcalls
    rw [hrows]
    by_cases hsent : job.bDataSent = true
    · exact Nat.lt_of_lt_of_le (h.sent hsent) (Nat.le_add_right _ _)
    · -- nothing was passed, so all calls were counted
      obtain ⟨hfilled, hplaced, -⟩ := h.unsent (eq_false_of_ne_true hsent)
      have htotal := h.total hfilled
      rw [if_pos ⟨hsent, by lia⟩]
      exact Nat.succ_pos _
  · intro pre r post hpre
    by_cases hsend : ¬ job.bDataSent ∧ 0 < job.skipcount
    · obtain ⟨-, hplaced, -⟩ := h.unsent (eq_false_of_ne_true hsend.1)
      rw [hacts, if_pos hsend] at hpre
      match pre, hpre with
      | [_], hpre =>
        obtain ⟨rfl, -⟩ := List.cons.inj hpre
        rw [hplaced]
        rfl
      | _ :: _ :: pre, hpre =>
        have hmem : Act.execute r ∈ [Act.flush, .formFeed] := by
          have htail := (List.cons.inj (List.cons.inj hpre).2).2
          have htail : [Act.flush, .formFeed] = pre ++ .execute r :: post := htail
          rw [htail]
          exact List.mem_append_right _ List.mem_cons_self
        simp at hmem
    · rw [hacts, if_neg hsend] at hpre
      have hmem : Act.execute r ∈ [Act.setLastBand, .flush, .formFeed] := by
        have hpre : [Act.setLastBand, .flush, .formFeed] = pre ++ .execute r :: post := hpre
        rw [hpre]
        exact List.mem_append_right _ List.mem_cons_self
      simp at hmem
  · intro he
    rw [hjob, if_pos he]
  · intro pre n post hpre
    rw [hacts] at hpre
    have hmem : Act.sendCAPy n ∈ pre ++ .sendCAPy n :: post :=
      List.mem_append_right _ List.mem_cons_self
    rw [← hpre] at hmem
    by_cases hsend : ¬ job.bDataSent ∧ 0 < job.skipcount
    · rw [if_pos hsend] at hmem
      simp at hmem
    · rw [if_neg hsend] at hmem
      simp at hmem

theorem Accounted.cleanup (h : Accounted job p) (e : Answers) (hrows : 0 < p.rows) :
    Act.formFeed ∈ (Job.cleanup width e noError job).2 := by
  have hsent : job.bDataSent = true := by
    by_contra hsent
    obtain ⟨-, -, hnone⟩ := h.unsent (eq_false_of_ne_true hsent)
    omega
  rw [Job.cleanup, if_neg (not_not.mpr rfl), if_pos hsent, newPage_acts width e h.hasPipeline]
  simp

end Positions

end Hplip.Hpcups.Job
