import Hplip.Lib.Machine
import Mathlib.Data.List.Basic
import Mathlib.Tactic.Common

/-!
# Files of a photo card (photocard.py)

A file on a card looks like a file object to the EXIF reader. What was read of it is kept: a
beginning of the file, as long as the farthest read needed it.

The buffer is the beginning of the contents by its type, and the size of the file is never known.
An index is any integer, as a slice of
Python takes it.
-/

namespace Hplip.Pcard

open Machine

/-! ## The code -/

/-- A file on a card; `pcardext.read` gets the bytes of a range, up to the end of the file. -/
structure CardFile where
  contents : List UInt8
  read : Nat → Nat → List UInt8
  read_eq : ∀ offset len, read offset len = (contents.drop offset).take len

def CardFile.ofList (contents : List UInt8) : CardFile where
  contents := contents
  read offset len := (contents.drop offset).take len
  read_eq _ _ := rfl

/-- `INITIAL_PCARDFILE_BUFFER`. -/
abbrev initialBuffer : Nat := 20 * 512

/-- `INCREMENTAL_PCARDFILE_BUFFER`. -/
abbrev incrementalBuffer : Nat := 2 * 512

structure PhotoCardFile (c : CardFile) where
  pos : Int
  fileSize : Int
  buffer : List UInt8
  bufferSize : Nat
  filled : buffer = c.contents.take bufferSize
  unsized : fileSize = 0

namespace PhotoCardFile

variable {c : CardFile}

/-- `PhotoCardFile.__init__`. -/
def new (c : CardFile) : PhotoCardFile c where
  pos := 0
  fileSize := 0
  buffer := c.read 0 initialBuffer
  bufferSize := initialBuffer
  filled := c.read_eq 0 initialBuffer
  unsized := rfl

/-- An index of a slice: from the end if negative, and inside the sequence. -/
def sliceIndex (n : Nat) (i : Int) : Nat :=
  if i < 0 then (i + n).toNat else min i.toNat n

/-- `l[i:j]`. -/
def pySlice (l : List UInt8) (i j : Int) : List UInt8 :=
  (l.drop (sliceIndex l.length i)).take (sliceIndex l.length j - sliceIndex l.length i)

def seek (f : PhotoCardFile c) (offset whence : Int) : PhotoCardFile c :=
  if whence = 0 then { f with pos := offset }
  else if whence = 1 then { f with pos := f.pos + offset }
  else if whence = 2 then { f with pos := f.fileSize - offset }
  else f

def tell (f : PhotoCardFile c) : Int := f.pos

def more (f : PhotoCardFile c) : PhotoCardFile c where
  pos := f.pos
  fileSize := f.fileSize
  buffer := f.buffer ++ c.read f.bufferSize incrementalBuffer
  bufferSize := f.bufferSize + incrementalBuffer
  filled := by rw [f.filled, c.read_eq, List.take_add]
  unsized := f.unsized

/-- The loop of `read`: so much that the buffer size is over `stop`. -/
def fill (stop : Int) (f : PhotoCardFile c) : PhotoCardFile c :=
  if f.bufferSize ≤ stop then fill stop (more f) else f
termination_by (stop + 1 - f.bufferSize).toNat
decreasing_by
  have hmore : (more f).bufferSize = f.bufferSize + 1024 := rfl
  lia

theorem fill_spec (stop : Int) (f : PhotoCardFile c) :
    (fill stop f).pos = f.pos ∧ stop < (fill stop f).bufferSize := by
  induction f using fill.induct stop with
  | case1 f hle ih =>
    rw [fill, if_pos hle]
    exact ih
  | case2 f hle =>
    rw [fill, if_neg hle]
    exact ⟨rfl, Int.not_le.mp hle⟩

def read (f : PhotoCardFile c) (size : Int) : Option (List UInt8) × PhotoCardFile c :=
  if 0 < size then
    if f.pos + size < f.bufferSize then
      (some (pySlice f.buffer f.pos (f.pos + size)), { f with pos := f.pos + size })
    else read (fill (f.pos + size) f) size
  else (none, f)
termination_by (f.pos + size + 1 - f.bufferSize).toNat
decreasing_by
  obtain ⟨hpos, hsize⟩ := fill_spec (f.pos + size) f
  omega

inductive Call where
  | seek (offset whence : Int)
  | read (size : Int)
  | tell

inductive Answer where
  | none
  | data (bytes : List UInt8)
  | pos (n : Int)

def Call.run (f : PhotoCardFile c) : Call → Answer × PhotoCardFile c
  | .seek offset whence => (.none, f.seek offset whence)
  | .read size =>
    match f.read size with
    | (some bytes, f) => (.data bytes, f)
    | (.none, f) => (.none, f)
  | .tell => (.pos f.tell, f)

/-! ## An ordinary file -/

/-- A file object on the contents `bytes`: its state is the position. -/
def ordinary (bytes : List UInt8) (pos : Int) : Call → Answer × Int
  | .seek offset whence =>
    (.none, if whence = 0 then offset else if whence = 1 then pos + offset
      else bytes.length + offset)
  | .read size =>
    let data := (bytes.drop pos.toNat).take size.toNat
    (.data data, pos + data.length)
  | .tell => (.pos pos, pos)

/-- A call that an ordinary file takes: it knows three kinds of seek, and a read is of a few
bytes. -/
def Call.Valid : Call → Prop
  | .seek _ whence => whence = 0 ∨ whence = 1 ∨ whence = 2
  | .read size => 0 < size
  | .tell => True

structure Script (c : CardFile) where
  calls : List Call
  valid : ∀ t ∈ trace (ordinary c.contents) 0 calls, t.call.Valid ∧ 0 ≤ t.after

def answers {σ : Type} (step : σ → Call → Answer × σ) (s : σ) (calls : List Call) : List Answer :=
  (trace step s calls).map Step.answer

/-- After every part of the calls the answers are the same, and another `tell` gets the same. -/
def Alike (f : PhotoCardFile c) (pos : Int) (calls : List Call) : Prop :=
  ∀ p, p <+: calls →
    answers Call.run f (p ++ [.tell]) = answers (ordinary c.contents) pos (p ++ [.tell])

/-- The file answers as an ordinary one. -/
def IsOrdinary (s : Script c) : Prop := Alike (new c) 0 s.calls

/-- A call that leaves the position where it is in an ordinary file: a read up to the end at
most, and a seek from the end by half of the file. -/
def Keeps (c : CardFile) (pos : Int) : Call → Prop
  | .seek offset whence => whence = 2 → -offset = c.contents.length + offset
  | .read size => pos + size ≤ c.contents.length
  | .tell => True

/-! ## One call -/

variable {f : PhotoCardFile c} {pos : Int} {a : Call} {as : List Call}

theorem sliceIndex_natCast (n i : Nat) : sliceIndex n i = min i n := by
  have hi : ¬ (i : Int) < 0 := Int.not_lt.mpr (Int.natCast_nonneg i)
  simp [sliceIndex, hi]

theorem pySlice_natCast (l : List UInt8) (i k : Nat) :
    pySlice l i ((i : Int) + k) = (l.drop i).take k := by
  rw [pySlice, ← Int.natCast_add, sliceIndex_natCast, sliceIndex_natCast]
  rcases Nat.le_total i l.length with hle | hle
  · rw [Nat.min_eq_left hle, List.take_eq_take_iff, List.length_drop]
    lia
  · rw [Nat.min_eq_right hle, List.drop_length, List.drop_eq_nil_of_le hle, List.take_nil,
      List.take_nil]

theorem slice_buffer (f : PhotoCardFile c) {i k : Nat} (h : i + k ≤ f.bufferSize) :
    pySlice f.buffer i ((i : Int) + k) = (c.contents.drop i).take k := by
  rw [pySlice_natCast, f.filled, List.drop_take, List.take_take, Nat.min_eq_left (by lia)]

/-- **A read** gets what is there, and goes as far as it was asked to. -/
theorem read_spec (f : PhotoCardFile c) {size : Int} (hpos : 0 ≤ f.pos) (hsize : 0 < size) :
    (f.read size).1 = some ((c.contents.drop f.pos.toNat).take size.toNat) ∧
      (f.read size).2.pos = f.pos + size := by
  have hbuffered : ∀ g : PhotoCardFile c, g.pos = f.pos → g.pos + size < g.bufferSize →
      (g.read size).1 = some ((c.contents.drop f.pos.toNat).take size.toNat) ∧
        (g.read size).2.pos = f.pos + size := by
    intro g hg hinside
    obtain ⟨i, hi⟩ := Int.eq_ofNat_of_zero_le hpos
    obtain ⟨k, rfl⟩ := Int.eq_ofNat_of_zero_le (Int.le_of_lt hsize)
    rw [hg, hi] at hinside
    have hslice := slice_buffer g (i := i) (k := k) (by omega)
    rw [read, if_pos hsize, if_pos (by rw [hg, hi]; exact hinside)]
    simp only [hg, hi, hslice, Int.toNat_natCast, and_self]
  by_cases hinside : f.pos + size < f.bufferSize
  · exact hbuffered f rfl hinside
  · obtain ⟨hfillPos, hfillSize⟩ := fill_spec (f.pos + size) f
    rw [read, if_pos hsize, if_neg hinside]
    exact hbuffered _ hfillPos (by rw [hfillPos]; exact hfillSize)

theorem run_read (hpos : 0 ≤ f.pos) {size : Int} (hsize : 0 < size) :
    (Call.run f (.read size)).1 = .data ((c.contents.drop f.pos.toNat).take size.toNat) ∧
      (Call.run f (.read size)).2.pos = f.pos + size := by
  obtain ⟨hdata, hafter⟩ := read_spec f hpos hsize
  rw [Call.run]
  generalize f.read size = r at hdata hafter
  obtain ⟨data, g⟩ := r
  cases hdata
  exact ⟨rfl, hafter⟩

theorem run_answer (hpos : 0 ≤ f.pos) (ha : a.Valid) :
    (a.run f).1 = (ordinary c.contents f.pos a).1 := by
  cases a with
  | seek offset whence => rfl
  | read size => exact (run_read hpos ha).1
  | tell => rfl

theorem run_pos_iff (hpos : 0 ≤ f.pos) (ha : a.Valid) :
    (a.run f).2.pos = (ordinary c.contents f.pos a).2 ↔ Keeps c f.pos a := by
  cases a with
  | seek offset whence =>
    simp only [Call.run, seek, ordinary, Keeps, f.unsized]
    rcases ha with rfl | rfl | rfl <;> simp
  | read size =>
    have hsize : 0 < size := ha
    rw [(run_read hpos hsize).2]
    simp only [ordinary, Keeps, List.length_take, List.length_drop]
    lia
  | tell => exact iff_of_true rfl trivial

/-! ## Runs -/

variable {bytes : List UInt8}

theorem answers_cons {σ : Type} (step : σ → Call → Answer × σ) (s : σ) (a : Call)
    (as : List Call) : answers step s (a :: as) = (step s a).1 :: answers step (step s a).2 as :=
  rfl

theorem alike_nil : Alike f pos [] ↔ f.pos = pos := by
  rw [Alike]
  simp only [List.prefix_nil, forall_eq]
  exact ⟨fun h => by injection (List.cons.inj h).1, fun h => by rw [← h]; rfl⟩

theorem Alike.pos_eq (h : Alike f pos as) : f.pos = pos :=
  alike_nil.mp fun p hp => h p (List.prefix_nil.mp hp ▸ List.nil_prefix)

theorem alike_cons (hf : f.pos = pos) : Alike f pos (a :: as) ↔
    (a.run f).1 = (ordinary c.contents pos a).1 ∧
      Alike (a.run f).2 (ordinary c.contents pos a).2 as := by
  constructor
  · intro h
    have hcons : ∀ p, p <+: as → answers Call.run f (a :: p ++ [.tell])
        = answers (ordinary c.contents) pos (a :: p ++ [.tell]) := fun p hp =>
      h (a :: p) (List.cons_prefix_cons.mpr ⟨rfl, hp⟩)
    exact ⟨(List.cons.inj (hcons [] List.nil_prefix)).1, fun p hp => (List.cons.inj (hcons p hp)).2⟩
  · rintro ⟨hanswer, hrest⟩ p hp
    cases p with
    | nil => exact (alike_nil.mpr hf) [] List.nil_prefix
    | cons b p =>
      obtain ⟨rfl, hp'⟩ := List.cons_prefix_cons.mp hp
      rw [List.cons_append, answers_cons, answers_cons, hanswer, hrest p hp']

/-- **Runs**: as long as all calls keep the position, and no longer, a file answers as an ordinary
one. -/
theorem alike_iff (hf : f.pos = pos) (hpos : 0 ≤ pos)
    (hvalid : ∀ t ∈ trace (ordinary c.contents) pos as, t.call.Valid ∧ 0 ≤ t.after) :
    Alike f pos as ↔ ∀ t ∈ trace (ordinary c.contents) pos as, Keeps c t.before t.call := by
  induction as generalizing f pos with
  | nil => exact iff_of_true (alike_nil.mpr hf) fun t ht => nomatch ht
  | cons a as ih =>
    obtain ⟨⟨ha, hafter⟩, hrest⟩ := List.forall_mem_cons.mp hvalid
    subst hf
    have hanswer : (a.run f).1 = (ordinary c.contents f.pos a).1 := run_answer hpos ha
    have hkeeps : (a.run f).2.pos = (ordinary c.contents f.pos a).2 ↔ Keeps c f.pos a :=
      run_pos_iff hpos ha
    rw [alike_cons rfl, trace_cons, List.forall_mem_cons, and_iff_right hanswer]
    by_cases hnext : (a.run f).2.pos = (ordinary c.contents f.pos a).2
    · rw [ih hnext hafter hrest]
      exact (and_iff_right (hkeeps.mp hnext)).symm
    · exact iff_of_false (fun h => hnext h.pos_eq) fun h => hnext (hkeeps.mpr h.1)

/-- **The file of a card is an ordinary one** in the scripts that read no farther than its end, and
seek from its end only by half of it. -/
theorem isOrdinary_iff (s : Script c) :
    IsOrdinary s ↔ ∀ t ∈ trace (ordinary c.contents) 0 s.calls, Keeps c t.before t.call :=
  alike_iff rfl (Int.le_refl 0) s.valid

def toEnd : Script (.ofList [0xff, 0xd8]) where
  calls := [.seek 0 2]
  valid t ht := by
    rw [List.mem_singleton.mp ht]
    exact ⟨.inr (.inr rfl), by decide⟩

/-- The end of a file is taken for its beginning. -/
theorem toEnd_not_ordinary : ¬ IsOrdinary toEnd := by
  intro h
  have hpos := Alike.pos_eq fun p hp => (List.cons.inj (h (.seek 0 2 :: p)
    (List.cons_prefix_cons.mpr ⟨rfl, hp⟩))).2
  exact absurd hpos (by decide)

end PhotoCardFile

end Hplip.Pcard
