import Mathlib.Algebra.Order.BigOperators.Group.List
import Mathlib.Algebra.Order.Group.Nat
import Hplip.Lib.CInt
import Hplip.Lib.CString
import Hplip.Lib.Loop

/-!
# Undoing chunks in place (http.c)

`http_unchunk_data` reads a NUL-terminated string through one pointer and writes what is left of
it through another one behind it. The loops are a machine: `Pc` says in which of them it is, and
a round of the machine is a round of that loop.
-/

namespace Hplip.Sane.Unchunk

open CString CInt Loop

def isLineEnd (c : UInt8) : Bool := c = 10 || c = 13

/-- `*p == '\n' || *p == '\r' || *p == '\t'` -/
def isBreak (c : UInt8) : Bool := c = 10 || c = 13 || c = 9

/-- What a character of the size line adds to `chunklen`. -/
def hexDigit (c : UInt8) : Option Nat :=
  if 48 ≤ c ∧ c ≤ 57 then some (c.toNat - 48)
  else if 65 ≤ c ∧ c ≤ 70 then some (c.toNat - 55)
  else if 97 ≤ c ∧ c ≤ 102 then some (c.toNat - 87)
  else none

/-- `chunklen << 4` -/
def shiftLeft (n : Int) : Int := ofDword (toDword (n * 16))

/-- `chunklen >> 4` -/
def shiftRight (n : Int) : Int := n / 16

structure Tape (τ : Type) where
  /-- `*p` -/
  load : τ → Except Fault UInt8
  /-- `p++` -/
  next : τ → τ
  /-- `*temp = *p; temp++; p++` -/
  move : UInt8 → τ → Except Fault τ
  /-- `*temp = 0` -/
  finish : τ → Except Fault (List UInt8)

/-- The loops: over a buffer without sizes, over a size line, over the line end behind it, over
the data, and over the line end behind them. -/
inductive Pc
  | strip
  | size
  | before
  | data
  | after
  deriving DecidableEq

structure State (τ : Type) where
  pc : Pc
  chunklen : Int
  tape : τ

section Machine

variable {τ : Type}

def Tape.take (T : Tape τ) (c : UInt8) (t : τ) : Except Fault τ :=
  if isBreak c then .ok (T.next t) else T.move c t

/-- `if (chunklen == 0) break;` -/
def leaveSize (T : Tape τ) (n : Int) (t : τ) : Except Fault (State τ ⊕ List UInt8) :=
  if n = 0 then (T.finish t).map .inr else .ok (.inl ⟨.before, n, t⟩)

def visit (T : Tape τ) (s : State τ) (c : UInt8) : Except Fault (State τ ⊕ List UInt8) :=
  match s.pc with
  | .strip =>
    if c = 0 then (T.finish s.tape).map .inr
    else (T.take c s.tape).map fun t => .inl { s with tape := t }
  | .size =>
    if isLineEnd c then leaveSize T s.chunklen s.tape
    else
      match hexDigit c with
      | some d => .ok (.inl ⟨.size, shiftLeft s.chunklen + d, T.next s.tape⟩)
      | none => leaveSize T (shiftRight (shiftLeft s.chunklen)) s.tape
  | .before => .ok (.inl (if isBreak c then { s with tape := T.next s.tape } else { s with pc := .data }))
  | .data => (T.take c s.tape).map fun t => .inl ⟨.data, s.chunklen - 1, t⟩
  | .after => .ok (.inl (if isBreak c then { s with tape := T.next s.tape } else { s with pc := .size }))

def round (T : Tape τ) (s : State τ) : Except Fault (State τ ⊕ List UInt8) :=
  if s.pc = .data ∧ s.chunklen ≤ 0 then .ok (.inl { s with pc := .after })
  else
    match T.load s.tape with
    | .ok c => visit T s c
    | .error e => .error e

def step (T : Tape τ) (s : State τ) : State τ ⊕ Except Fault (List UInt8) :=
  match round T s with
  | .ok (.inl s) => .inl s
  | .ok (.inr buf) => .inr (.ok buf)
  | .error e => .inr (.error e)

/-- `if (*p == '<')` -/
def start (first : UInt8) (t : τ) : State τ := ⟨if first = 60 then .strip else .size, 0, t⟩

end Machine

/-- `buffer`, and where `p` and `temp` are in it. -/
structure InPlace where
  buf : List UInt8
  p : Nat
  temp : Nat

def inPlace : Tape InPlace where
  load t := load t.buf t.p
  next t := { t with p := t.p + 1 }
  move c t := (store t.buf t.temp c).map fun buf => ⟨buf, t.p + 1, t.temp + 1⟩
  finish t := store t.buf t.temp 0

/-- `http_unchunk_data` of a string ends with a buffer. -/
def HttpUnchunkData (s buf : List UInt8) : Prop :=
  ∃ n, rounds (step inPlace) n (start ((mem s).headD 0) ⟨mem s, 0, 0⟩) = .inr (.ok buf)

/-! ## Strings and bodies -/

def isHex (c : UInt8) : Bool := (hexDigit c).isSome

/-- `chunklen` after some digits. -/
def accumulate (n : Int) (ds : List UInt8) : Int :=
  ds.foldl (fun n c => shiftLeft n + ((hexDigit c).getD 0 : Nat)) n

/-- `chunklen` after a size line that goes on with `c`. -/
def sizeRead (n : Int) (c : UInt8) : Int := if isLineEnd c then n else shiftRight (shiftLeft n)

/-- The size at the front of a string, put behind what was there already. -/
def declared (n : Int) (s : List UInt8) : Int :=
  sizeRead (accumulate n (s.takeWhile isHex)) ((s.dropWhile isHex).headD 0)

def body (s : List UInt8) : List UInt8 := (s.dropWhile isHex).dropWhile isBreak

/-- Sizes that are not larger than what there is behind them, up to a zero. A size that is
negative as an `int` goes before the digits of the next one. -/
inductive Framed : Int → List UInt8 → Prop
  | last {n : Int} {s : List UInt8} : declared n s = 0 → Framed n s
  | chunk {n : Int} {s : List UInt8} : 0 < declared n s → declared n s ≤ (body s).length →
    Framed 0 (((body s).drop (declared n s).toNat).dropWhile isBreak) → Framed n s
  | negative {n : Int} {s : List UInt8} : declared n s < 0 → Framed (declared n s) (body s) →
    Framed n s

inductive IsEol : List UInt8 → Prop
  | lf : IsEol [10]
  | crlf : IsEol [13, 10]

def hexValue (ds : List UInt8) : Nat := ds.foldl (fun v c => 16 * v + (hexDigit c).getD 0) 0

structure Spelled (n : Nat) (ds : List UInt8) : Prop where
  nonempty : ds ≠ []
  digits : ∀ c ∈ ds, isHex c = true
  value : hexValue ds = n

structure Chunk where
  data : List UInt8
  nonempty : data ≠ []
  noNul : 0 ∉ data
  /-- The caller has the whole body in an array, and its size is an `int`. -/
  length_lt : data.length < 2 ^ 31

inductive Encoded (eol : List UInt8) : List Chunk → List UInt8 → Prop
  | last {ds : List UInt8} : Spelled 0 ds → Encoded eol [] (ds ++ eol ++ eol)
  | chunk {c : Chunk} {cs : List Chunk} {ds s : List UInt8} : Spelled c.data.length ds →
    Encoded eol cs s → Encoded eol (c :: cs) (ds ++ eol ++ c.data ++ eol ++ s)

def kept (l : List UInt8) : List UInt8 := l.filter fun c => !isBreak c

def payload (cs : List Chunk) : List UInt8 := cs.flatMap fun c => kept c.data

/-- Every way to write the chunks comes out right. -/
def UnchunksTo (eol : List UInt8) (cs : List Chunk) : Prop :=
  ∀ s, Encoded eol cs s → ∃ rest, HttpUnchunkData s (payload cs ++ 0 :: rest)

/-- The data begin with no more line breaks than a line end has, and are not all line breaks. -/
def Begins (eol : List UInt8) (c : Chunk) : Prop :=
  ∃ u x v, c.data = u ++ x :: v ∧ (∀ y ∈ u, isBreak y = true) ∧ isBreak x = false ∧
    u.length ≤ eol.length

/-! ## Two buffers instead of one -/

/-- What was written, and the cells from `p` on. -/
structure Split where
  out : List UInt8
  cells : List UInt8

def split : Tape Split where
  load t :=
    match t.cells with
    | [] => .error .load
    | c :: _ => .ok c
  next t := { t with cells := t.cells.tail }
  move c t := .ok ⟨t.out ++ [c], t.cells.tail⟩
  finish t := .ok t.out

def Shared (t : InPlace) (a : Split) : Prop :=
  ∃ between, t.buf = a.out ++ (between ++ a.cells) ∧ t.temp = a.out.length ∧
    t.p = a.out.length + between.length

structure Alike (s : State InPlace) (a : State Split) : Prop where
  pc : s.pc = a.pc
  chunklen : s.chunklen = a.chunklen
  tape : Shared s.tape a.tape

def Holds : Except Fault (List UInt8) → Except Fault (List UInt8) → Prop
  | .ok buf, .ok out => ∃ rest, buf = out ++ 0 :: rest
  | .error _, .error _ => True
  | _, _ => False

section Simulation

variable {t : InPlace} {a : Split} {c : UInt8} {m : List UInt8}

theorem shared_load (h : Shared t a) :
    inPlace.load t = match a.cells with
      | [] => .error .load
      | c :: _ => .ok c := by
  obtain ⟨between, hbuf, -, hp⟩ := h
  show load t.buf t.p = _
  rw [hbuf, hp, load, ← List.append_assoc, List.getElem?_append_right (by simp)]
  have hzero : a.out.length + between.length - (a.out ++ between).length = 0 := by simp
  rw [hzero]
  cases a.cells with
  | nil => rfl
  | cons c m => rfl

theorem shared_next (h : Shared t a) (hcells : a.cells = c :: m) :
    Shared (inPlace.next t) (split.next a) := by
  obtain ⟨between, hbuf, htemp, hp⟩ := h
  refine ⟨between ++ [c], ?_, htemp, ?_⟩
  · show t.buf = a.out ++ (between ++ [c] ++ a.cells.tail)
    rw [hbuf, hcells]
    simp
  · show t.p + 1 = a.out.length + (between ++ [c]).length
    rw [hp]
    simp [Nat.add_assoc]

theorem shared_move (h : Shared t a) (hcells : a.cells = c :: m) :
    ∃ t', inPlace.move c t = .ok t' ∧ Shared t' ⟨a.out ++ [c], a.cells.tail⟩ := by
  obtain ⟨between, hbuf, htemp, hp⟩ := h
  obtain ⟨d, rest, hrest⟩ : ∃ d rest, between ++ [c] = d :: rest :=
    List.exists_cons_of_ne_nil (by simp)
  have hbuf' : t.buf = a.out ++ d :: (rest ++ m) := by
    rw [hbuf, hcells, ← List.cons_append, ← hrest]
    simp
  have hlength := congrArg List.length hrest
  rw [List.length_append, List.length_singleton, List.length_cons] at hlength
  refine ⟨⟨a.out ++ c :: (rest ++ m), t.p + 1, t.temp + 1⟩, ?_, rest, ?_, ?_, ?_⟩
  · show (store t.buf t.temp c).map _ = _
    rw [hbuf', htemp, store_append]
    rfl
  · rw [hcells]
    simp
  · simp [htemp]
  · show t.p + 1 = (a.out ++ [c]).length + rest.length
    rw [hp, List.length_append, List.length_singleton]
    lia

theorem shared_finish (h : Shared t a) (hcells : a.cells = c :: m) :
    ∃ buf, inPlace.finish t = .ok buf ∧ ∃ rest, buf = a.out ++ 0 :: rest := by
  obtain ⟨between, hbuf, htemp, -⟩ := h
  obtain ⟨d, rest, hrest⟩ : ∃ d rest, between ++ a.cells = d :: rest :=
    List.exists_cons_of_ne_nil (by simp [hcells])
  refine ⟨a.out ++ 0 :: rest, ?_, rest, rfl⟩
  show store t.buf t.temp 0 = _
  rw [hbuf, htemp, hrest, store_append]

theorem shared_take (h : Shared t a) (hcells : a.cells = c :: m) :
    ∃ t' a', inPlace.take c t = .ok t' ∧ split.take c a = .ok a' ∧ Shared t' a' := by
  rw [Tape.take, Tape.take]
  by_cases hc : isBreak c = true
  · rw [if_pos hc, if_pos hc]
    exact ⟨_, _, rfl, rfl, shared_next h hcells⟩
  · rw [if_neg hc, if_neg hc]
    obtain ⟨t', hmove, hshared⟩ := shared_move h hcells
    exact ⟨t', _, hmove, rfl, hshared⟩

def RoundsAlike (x : Except Fault (State InPlace ⊕ List UInt8))
    (y : Except Fault (State Split ⊕ List UInt8)) : Prop :=
  match x, y with
  | .ok (.inl s), .ok (.inl a) => Alike s a
  | .ok (.inr buf), .ok (.inr out) => ∃ rest, buf = out ++ 0 :: rest
  | .error _, .error _ => True
  | _, _ => False

theorem finish_alike (h : Shared t a) (hcells : a.cells = c :: m) :
    RoundsAlike ((inPlace.finish t).map .inr) ((split.finish a).map .inr) := by
  obtain ⟨buf, hfinish, hbuf⟩ := shared_finish h hcells
  rw [hfinish]
  exact hbuf

theorem leaveSize_alike (h : Shared t a) (hcells : a.cells = c :: m) (n : Int) :
    RoundsAlike (leaveSize inPlace n t) (leaveSize split n a) := by
  rw [leaveSize, leaveSize]
  by_cases hn : n = 0
  · rw [if_pos hn, if_pos hn]
    exact finish_alike h hcells
  · rw [if_neg hn, if_neg hn]
    exact ⟨rfl, rfl, h⟩

theorem take_alike (h : Shared t a) (hcells : a.cells = c :: m) (pc : Pc) (n : Int) :
    RoundsAlike ((inPlace.take c t).map fun t => .inl ⟨pc, n, t⟩)
      ((split.take c a).map fun t => .inl ⟨pc, n, t⟩) := by
  obtain ⟨t', a', htake, htake', hshared⟩ := shared_take h hcells
  rw [htake, htake']
  exact ⟨rfl, rfl, hshared⟩

theorem visit_alike (pc : Pc) (n : Int) (h : Shared t a) (hcells : a.cells = c :: m) :
    RoundsAlike (visit inPlace ⟨pc, n, t⟩ c) (visit split ⟨pc, n, a⟩ c) := by
  cases pc with
  | strip =>
    simp only [visit]
    by_cases hc : c = 0
    · rw [if_pos hc, if_pos hc]
      exact finish_alike h hcells
    · rw [if_neg hc, if_neg hc]
      exact take_alike h hcells .strip n
  | size =>
    simp only [visit]
    by_cases hc : isLineEnd c = true
    · rw [if_pos hc, if_pos hc]
      exact leaveSize_alike h hcells n
    · rw [if_neg hc, if_neg hc]
      cases hexDigit c with
      | some d => exact ⟨rfl, rfl, shared_next h hcells⟩
      | none => exact leaveSize_alike h hcells _
  | before =>
    simp only [visit]
    by_cases hc : isBreak c = true
    · rw [if_pos hc, if_pos hc]
      exact ⟨rfl, rfl, shared_next h hcells⟩
    · rw [if_neg hc, if_neg hc]
      exact ⟨rfl, rfl, h⟩
  | data => exact take_alike h hcells .data (n - 1)
  | after =>
    simp only [visit]
    by_cases hc : isBreak c = true
    · rw [if_pos hc, if_pos hc]
      exact ⟨rfl, rfl, shared_next h hcells⟩
    · rw [if_neg hc, if_neg hc]
      exact ⟨rfl, rfl, h⟩

theorem round_alike {s : State InPlace} {b : State Split} (h : Alike s b) :
    RoundsAlike (round inPlace s) (round split b) := by
  obtain ⟨pc, n, t⟩ := s
  obtain ⟨pc', n', a⟩ := b
  obtain ⟨rfl, rfl, hshared⟩ : pc = pc' ∧ n = n' ∧ Shared t a := ⟨h.pc, h.chunklen, h.tape⟩
  rw [round, round]
  by_cases hdone : pc = .data ∧ n ≤ 0
  · rw [if_pos hdone, if_pos hdone]
    exact ⟨rfl, rfl, hshared⟩
  · rw [if_neg hdone, if_neg hdone]
    dsimp only
    rw [shared_load hshared]
    cases hcells : a.cells with
    | nil =>
      have hload : split.load a = .error .load := by
        show (match a.cells with | [] => _ | c :: _ => _) = _
        rw [hcells]
      rw [hload]
      exact trivial
    | cons c m =>
      have hload : split.load a = .ok c := by
        show (match a.cells with | [] => _ | c :: _ => _) = _
        rw [hcells]
      rw [hload]
      exact visit_alike pc n hshared hcells

theorem step_simulates (s : State InPlace) (b : State Split) (h : Alike s b) :
    Sum.LiftRel Alike Holds (step inPlace s) (step split b) := by
  have hround := round_alike h
  rw [step, step]
  generalize round inPlace s = x at hround
  generalize round split b = y at hround
  match x, y, hround with
  | .ok (.inl _), .ok (.inl _), hround => exact .inl hround
  | .ok (.inr _), .ok (.inr _), hround => exact .inr hround
  | .error _, .error _, _ => exact .inr trivial

end Simulation

/-! ## The loops -/

abbrev at' (pc : Pc) (n : Int) (out cells : List UInt8) : State Split := ⟨pc, n, ⟨out, cells⟩⟩

section Loops

variable {n : Int} {out m w : List UInt8} {c : UInt8}

theorem isLineEnd_of_isHex (h : isHex c = true) : isLineEnd c = false ∧ isBreak c = false := by
  have hne : ∀ d : UInt8, isHex d = false → c ≠ d := by
    rintro d hd rfl
    rw [h] at hd
    cases hd
  have h10 := hne 10 (by decide)
  have h13 := hne 13 (by decide)
  have h9 := hne 9 (by decide)
  simp [isLineEnd, isBreak, h10, h13, h9]

theorem round_cons {pc : Pc} (hpc : ¬ (pc = .data ∧ n ≤ 0)) :
    round split (at' pc n out (c :: m)) = visit split (at' pc n out (c :: m)) c := by
  rw [round, if_neg hpc]
  rfl

theorem step_of_visit {pc : Pc} {a : State Split} (hpc : ¬ (pc = .data ∧ n ≤ 0))
    (h : visit split (at' pc n out (c :: m)) c = .ok (.inl a)) :
    Reaches (step split) 1 (at' pc n out (c :: m)) a := by
  refine Reaches.step ?_
  rw [step, round_cons hpc, h]

theorem reaches_digits {ds : List UInt8} (hds : ∀ c ∈ ds, isHex c = true) :
    Reaches (step split) ds.length (at' .size n out (ds ++ m))
      (at' .size (accumulate n ds) out m) := by
  induction ds generalizing n with
  | nil => exact Reaches.refl _
  | cons c ds ih =>
    obtain ⟨hc, hrest⟩ := List.forall_mem_cons.mp hds
    obtain ⟨d, hd⟩ := Option.isSome_iff_exists.mp hc
    have hfirst : Reaches (step split) 1 (at' .size n out (c :: (ds ++ m)))
        (at' .size (shiftLeft n + ((hexDigit c).getD 0 : Nat)) out (ds ++ m)) := by
      refine step_of_visit (by simp) ?_
      simp only [visit, (isLineEnd_of_isHex hc).1, Bool.false_eq_true, if_false, hd]
      rfl
    rw [List.length_cons, Nat.add_comm]
    exact hfirst.trans (ih hrest)

theorem reaches_skip {pc : Pc} (hpc : pc = .before ∨ pc = .after)
    (hw : ∀ c ∈ w, isBreak c = true) :
    Reaches (step split) w.length (at' pc n out (w ++ m)) (at' pc n out m) := by
  induction w with
  | nil => exact Reaches.refl _
  | cons c w ih =>
    obtain ⟨hc, hrest⟩ := List.forall_mem_cons.mp hw
    have hfirst : Reaches (step split) 1 (at' pc n out (c :: (w ++ m))) (at' pc n out (w ++ m)) := by
      rcases hpc with rfl | rfl
      · refine step_of_visit (by simp) ?_
        simp only [visit, hc, if_true]
        rfl
      · refine step_of_visit (by simp) ?_
        simp only [visit, hc, if_true]
        rfl
    rw [List.length_cons, Nat.add_comm]
    exact hfirst.trans (ih hrest)

theorem reaches_data (hc : isBreak c = false) :
    Reaches (step split) 1 (at' .before n out (c :: m)) (at' .data n out (c :: m)) := by
  refine step_of_visit (by simp) ?_
  simp only [visit, hc, Bool.false_eq_true, if_false]

theorem reaches_size (hc : isBreak c = false) :
    Reaches (step split) 1 (at' .after n out (c :: m)) (at' .size n out (c :: m)) := by
  refine step_of_visit (by simp) ?_
  simp only [visit, hc, Bool.false_eq_true, if_false]

theorem reaches_copied (d : List UInt8) {k : Nat} :
    Reaches (step split) d.length (at' .data (d.length + k : Nat) out (d ++ m))
      (at' .data k (out ++ kept d) m) := by
  induction d generalizing out with
  | nil =>
    rw [kept, List.filter_nil, List.append_nil, List.length_nil, Nat.zero_add]
    exact Reaches.refl _
  | cons c d ih =>
    have hpos : ¬ (Pc.data = .data ∧ (((c :: d).length + k : Nat) : Int) ≤ 0) := by
      rw [List.length_cons]
      omega
    have hless : (((c :: d).length + k : Nat) : Int) - 1 = (d.length + k : Nat) := by
      rw [List.length_cons]
      omega
    by_cases hc : isBreak c = true
    · have hfirst : Reaches (step split) 1 (at' .data ((c :: d).length + k : Nat) out (c :: (d ++ m)))
          (at' .data (d.length + k : Nat) out (d ++ m)) := by
        refine step_of_visit hpos ?_
        simp only [visit, Tape.take, hc, if_true, hless]
        rfl
      have hkept : kept (c :: d) = kept d := by simp [kept, hc]
      have hboth := hfirst.trans ih
      rw [Nat.add_comm] at hboth
      rw [hkept]
      exact hboth
    · have hfirst : Reaches (step split) 1 (at' .data ((c :: d).length + k : Nat) out (c :: (d ++ m)))
          (at' .data (d.length + k : Nat) (out ++ [c]) (d ++ m)) := by
        refine step_of_visit hpos ?_
        simp only [visit, Tape.take, if_neg hc, hless]
        rfl
      have hkept : out ++ kept (c :: d) = (out ++ [c]) ++ kept d := by simp [kept, hc]
      have hboth := hfirst.trans ih
      rw [Nat.add_comm] at hboth
      rw [hkept]
      exact hboth

theorem reaches_after (hn : n ≤ 0) :
    Reaches (step split) 1 (at' .data n out m) (at' .after n out m) := by
  refine Reaches.step ?_
  rw [step, round, if_pos ⟨rfl, hn⟩]

theorem step_sizeRead (hc : isHex c = false) :
    step split (at' .size n out (c :: m)) = if sizeRead n c = 0 then .inr (.ok out)
      else .inl (at' .before (sizeRead n c) out (c :: m)) := by
  have hd : hexDigit c = none := by simpa [isHex] using hc
  have hsize : ¬ (Pc.size = .data ∧ n ≤ 0) := by simp
  have hleave : visit split (at' .size n out (c :: m)) c
      = leaveSize split (sizeRead n c) ⟨out, c :: m⟩ := by
    simp only [visit, sizeRead, hd]
    by_cases hline : isLineEnd c = true
    · rw [if_pos hline, if_pos hline]
    · rw [if_neg hline, if_neg hline]
  rw [step, round_cons hsize, hleave, leaveSize]
  by_cases hzero : sizeRead n c = 0
  · rw [if_pos hzero, if_pos hzero]
    rfl
  · rw [if_neg hzero, if_neg hzero]

theorem step_past {pc : Pc} (hpc : ¬ (pc = .data ∧ n ≤ 0)) :
    step split (at' pc n out []) = .inr (.error .load) := by
  rw [step, round, if_neg hpc]
  rfl

end Loops

/-! ## Strings -/

section Strings

variable {n : Int} {s out : List UInt8}

theorem dropWhile_stop {p : UInt8 → Bool} (h : p 0 = false) (l : List UInt8) :
    ∃ m, l.dropWhile p ++ [0] = (l.dropWhile p).headD 0 :: m
      ∧ p ((l.dropWhile p).headD 0) = false := by
  cases hl : l.dropWhile p with
  | nil => exact ⟨[], rfl, h⟩
  | cons c m =>
    have hc := List.head_dropWhile_not p (l := l) (by rw [hl]; exact List.cons_ne_nil c m)
    simp only [hl, List.head_cons] at hc
    exact ⟨m ++ [0], rfl, hc⟩

theorem reaches_hexes (n : Int) (s out : List UInt8) :
    Reaches (step split) (s.takeWhile isHex).length (at' .size n out (s ++ [0]))
      (at' .size (accumulate n (s.takeWhile isHex)) out (s.dropWhile isHex ++ [0])) := by
  have hdigits : Reaches (step split) (s.takeWhile isHex).length
      (at' .size n out (s.takeWhile isHex ++ (s.dropWhile isHex ++ [0])))
      (at' .size (accumulate n (s.takeWhile isHex)) out (s.dropWhile isHex ++ [0])) :=
    reaches_digits fun c hc => List.mem_takeWhile_imp hc
  rwa [← List.append_assoc, List.takeWhile_append_dropWhile] at hdigits

theorem reaches_breaks {pc : Pc} (hpc : pc = .before ∨ pc = .after) (n : Int)
    (s out : List UInt8) :
    Reaches (step split) (s.takeWhile isBreak).length (at' pc n out (s ++ [0]))
      (at' pc n out (s.dropWhile isBreak ++ [0])) := by
  have hskip : Reaches (step split) (s.takeWhile isBreak).length
      (at' pc n out (s.takeWhile isBreak ++ (s.dropWhile isBreak ++ [0])))
      (at' pc n out (s.dropWhile isBreak ++ [0])) :=
    reaches_skip hpc fun c hc => List.mem_takeWhile_imp hc
  rwa [← List.append_assoc, List.takeWhile_append_dropWhile] at hskip

theorem reaches_declared (h : declared n s ≠ 0) (out : List UInt8) :
    ∃ k, 0 < k ∧ Reaches (step split) k (at' .size n out (s ++ [0]))
      (at' .data (declared n s) out (body s ++ [0])) := by
  obtain ⟨m, hm, hhex⟩ := dropWhile_stop (p := isHex) (by decide) s
  obtain ⟨m', hm', hbreak⟩ := dropWhile_stop (p := isBreak) (by decide) (s.dropWhile isHex)
  have hsize : Reaches (step split) 1
      (at' .size (accumulate n (s.takeWhile isHex)) out (s.dropWhile isHex ++ [0]))
      (at' .before (declared n s) out (s.dropWhile isHex ++ [0])) := by
    have hsome : sizeRead (accumulate n (s.takeWhile isHex)) ((s.dropWhile isHex).headD 0) ≠ 0 := h
    refine Reaches.step ?_
    rw [hm, step_sizeRead hhex, if_neg hsome]
    rfl
  have hskip := reaches_breaks (.inl rfl) (declared n s) (s.dropWhile isHex) out
  have hdata : Reaches (step split) 1 (at' .before (declared n s) out (body s ++ [0]))
      (at' .data (declared n s) out (body s ++ [0])) := by
    rw [body, hm']
    exact reaches_data hbreak
  exact ⟨_, by omega, (((reaches_hexes n s out).trans hsize).trans hskip).trans hdata⟩

theorem ends_last (h : declared n s = 0) (out : List UInt8) :
    ∃ k, rounds (step split) k (at' .size n out (s ++ [0])) = .inr (.ok out) := by
  obtain ⟨m, hm, hhex⟩ := dropWhile_stop (p := isHex) (by decide) s
  have hlast : rounds (step split) 1
      (at' .size (accumulate n (s.takeWhile isHex)) out (s.dropWhile isHex ++ [0]))
      = .inr (.ok out) := by
    have hzero : sizeRead (accumulate n (s.takeWhile isHex)) ((s.dropWhile isHex).headD 0) = 0 := h
    rw [hm, rounds, step_sizeRead hhex, if_pos hzero]
  exact ⟨_, (reaches_hexes n s out).ends hlast⟩

theorem reaches_chunk {b : List UInt8} {k : Nat} (hk : k ≤ b.length) (out : List UInt8) :
    ∃ j, Reaches (step split) j (at' .data k out (b ++ [0]))
      (at' .size 0 (out ++ kept (b.take k)) ((b.drop k).dropWhile isBreak ++ [0])) := by
  obtain ⟨m, hm, hbreak⟩ := dropWhile_stop (p := isBreak) (by decide) (b.drop k)
  have hlength : (b.take k).length = k := by rw [List.length_take, Nat.min_eq_left hk]
  have hcopied : Reaches (step split) (b.take k).length
      (at' .data ((b.take k).length + 0 : Nat) out (b.take k ++ (b.drop k ++ [0])))
      (at' .data 0 (out ++ kept (b.take k)) (b.drop k ++ [0])) := reaches_copied (b.take k)
  rw [hlength, Nat.add_zero, ← List.append_assoc, List.take_append_drop] at hcopied
  have hskip := reaches_breaks (.inr rfl) 0 (b.drop k) (out ++ kept (b.take k))
  have hsize : Reaches (step split) 1
      (at' .after 0 (out ++ kept (b.take k)) ((b.drop k).dropWhile isBreak ++ [0]))
      (at' .size 0 (out ++ kept (b.take k)) ((b.drop k).dropWhile isBreak ++ [0])) := by
    rw [hm]
    exact reaches_size hbreak
  exact ⟨_, ((hcopied.trans (reaches_after (Int.le_refl 0))).trans hskip).trans hsize⟩

theorem ends_past {b : List UInt8} {k : Nat} (hk : b.length < k) (out : List UInt8) :
    ∃ j, rounds (step split) j (at' .data k out (b ++ [0])) = .inr (.error .load) := by
  obtain ⟨r, rfl⟩ := Nat.exists_eq_add_of_lt hk
  have hcopied : Reaches (step split) (b ++ [0]).length
      (at' .data ((b ++ [0]).length + r : Nat) out (b ++ [0] ++ []))
      (at' .data r (out ++ kept (b ++ [0])) []) := reaches_copied (b ++ [0])
  have hlength : (b ++ [0]).length + r = b.length + r + 1 := by
    rw [List.length_append, List.length_singleton]
    omega
  rw [hlength, List.append_nil] at hcopied
  cases r with
  | zero =>
    have hpast : rounds (step split) 1 (at' .after 0 (out ++ kept (b ++ [0])) [])
        = .inr (.error .load) := by
      rw [rounds, step_past (by simp)]
    exact ⟨_, (hcopied.trans (reaches_after (Int.le_refl 0))).ends hpast⟩
  | succ r =>
    have hpast : rounds (step split) 1 (at' .data (r + 1 : Nat) (out ++ kept (b ++ [0])) [])
        = .inr (.error .load) := by
      rw [rounds, step_past (by omega)]
    exact ⟨_, hcopied.ends hpast⟩

theorem reaches_negative {k : Int} (hk : k < 0) (out : List UInt8) :
    ∃ j, Reaches (step split) j (at' .data k out (body s ++ [0]))
      (at' .size k out (body s ++ [0])) := by
  obtain ⟨m, hm, hbreak⟩ := dropWhile_stop (p := isBreak) (by decide) (s.dropWhile isHex)
  have hsize : Reaches (step split) 1 (at' .after k out (body s ++ [0]))
      (at' .size k out (body s ++ [0])) := by
    rw [body, hm]
    exact reaches_size hbreak
  exact ⟨_, (reaches_after (Int.le_of_lt hk)).trans hsize⟩

theorem framed_of_ends (k : Nat) {o : List UInt8}
    (h : rounds (step split) k (at' .size n out (s ++ [0])) = .inr (.ok o)) : Framed n s := by
  induction k using Nat.strongRecOn generalizing n s out with
  | ind k ih =>
    by_cases hzero : declared n s = 0
    · exact .last hzero
    obtain ⟨j, hj, hdata⟩ := reaches_declared hzero out
    obtain ⟨hle, hrest⟩ := hdata.of_ends h
    rcases Int.lt_or_gt_of_ne hzero with hneg | hpos
    · obtain ⟨i, hcarry⟩ := reaches_negative hneg out
      obtain ⟨-, hnext⟩ := hcarry.of_ends hrest
      exact .negative hneg (ih _ (by lia) hnext)
    · obtain ⟨d, hd⟩ := Int.eq_ofNat_of_zero_le (Int.le_of_lt hpos)
      rw [hd] at hrest
      by_cases hthere : d ≤ (body s).length
      · obtain ⟨i, hchunk⟩ := reaches_chunk hthere out
        obtain ⟨-, hnext⟩ := hchunk.of_ends hrest
        refine .chunk hpos (by lia) ?_
        rw [hd, Int.toNat_natCast]
        exact ih _ (by lia) hnext
      · obtain ⟨i, hpast⟩ := ends_past (Nat.not_le.mp hthere) out
        have heq := rounds_unique hpast hrest
        cases heq

theorem ends_of_framed (h : Framed n s) (out : List UInt8) :
    ∃ k o, rounds (step split) k (at' .size n out (s ++ [0])) = .inr (.ok o) := by
  induction h generalizing out with
  | last hzero =>
    obtain ⟨k, hk⟩ := ends_last hzero out
    exact ⟨k, out, hk⟩
  | @chunk n s hpos hle _ ih =>
    obtain ⟨d, hd⟩ := Int.eq_ofNat_of_zero_le (Int.le_of_lt hpos)
    obtain ⟨j, -, hdata⟩ := reaches_declared (Int.ne_of_gt hpos) out
    rw [hd] at hdata hle ih
    obtain ⟨i, hchunk⟩ := reaches_chunk (Int.ofNat_le.mp hle) out
    obtain ⟨k, o, hk⟩ := ih (out ++ kept ((body s).take d))
    exact ⟨_, o, (hdata.trans hchunk).ends hk⟩
  | @negative n s hneg _ ih =>
    obtain ⟨j, -, hdata⟩ := reaches_declared (Int.ne_of_lt hneg) out
    obtain ⟨i, hcarry⟩ := reaches_negative (s := s) hneg out
    obtain ⟨k, o, hk⟩ := ih out
    exact ⟨_, o, (hdata.trans hcarry).ends hk⟩

theorem ends_strip (s out : List UInt8) :
    ∃ k o, rounds (step split) k (at' .strip 0 out (s ++ [0])) = .inr (.ok o) := by
  induction s generalizing out with
  | nil =>
    refine ⟨1, out, ?_⟩
    rw [rounds, step, List.nil_append, round_cons (by simp)]
    rfl
  | cons c s ih =>
    by_cases hc : c = 0
    · subst hc
      refine ⟨1, out, ?_⟩
      rw [rounds, step, List.cons_append, round_cons (by simp)]
      rfl
    · have hgo : ∃ out', Reaches (step split) 1 (at' .strip 0 out (c :: (s ++ [0])))
          (at' .strip 0 out' (s ++ [0])) := by
        by_cases hbreak : isBreak c = true
        · refine ⟨out, step_of_visit (by simp) ?_⟩
          simp only [visit, Tape.take, if_neg hc, hbreak, if_true]
          rfl
        · refine ⟨out ++ [c], step_of_visit (by simp) ?_⟩
          simp only [visit, Tape.take, if_neg hc, if_neg hbreak]
          rfl
      obtain ⟨out', hfirst⟩ := hgo
      obtain ⟨k, o, hk⟩ := ih out'
      exact ⟨_, o, hfirst.ends hk⟩

end Strings

/-! ## The buffer of the source -/

section Buffer

variable {s buf : List UInt8}

theorem start_alike (s : List UInt8) (first : UInt8) :
    Alike (start first ⟨mem s, 0, 0⟩) (start first ⟨[], mem s⟩) :=
  ⟨rfl, rfl, [], rfl, rfl, rfl⟩

theorem rounds_alike (s : List UInt8) (n : Nat) :
    Sum.LiftRel Alike Holds
      (rounds (step inPlace) n (start ((mem s).headD 0) ⟨mem s, 0, 0⟩))
      (rounds (step split) n (start ((mem s).headD 0) ⟨[], mem s⟩)) :=
  rounds_simulates (P := fun _ => True) Alike Holds (fun s a h _ => step_simulates s a h) n _ _
    (start_alike s _) (along_of_forall (fun _ => trivial) _ _)

theorem unchunk_split {n : Nat} {o : List UInt8}
    (h : rounds (step split) n (start ((mem s).headD 0) ⟨[], mem s⟩) = .inr (.ok o)) :
    ∃ rest, HttpUnchunkData s (o ++ 0 :: rest) := by
  have hrel := rounds_alike s n
  rw [h] at hrel
  generalize hx : rounds (step inPlace) n (start ((mem s).headD 0) ⟨mem s, 0, 0⟩) = x at hrel
  cases hrel with
  | @inr r _ hholds =>
    cases r with
    | error e => exact hholds.elim
    | ok buf =>
      obtain ⟨rest, rfl⟩ := hholds
      exact ⟨rest, n, hx⟩

theorem split_of_unchunk (h : HttpUnchunkData s buf) :
    ∃ n o, rounds (step split) n (start ((mem s).headD 0) ⟨[], mem s⟩) = .inr (.ok o) := by
  obtain ⟨n, hn⟩ := h
  have hrel := rounds_alike s n
  rw [hn] at hrel
  generalize hx : rounds (step split) n (start ((mem s).headD 0) ⟨[], mem s⟩) = x at hrel
  cases hrel with
  | @inr _ r hholds =>
    cases r with
    | error e => exact hholds.elim
    | ok o => exact ⟨n, o, hx⟩

theorem unchunk_ends_iff (s : List UInt8) :
    (∃ buf, HttpUnchunkData s buf) ↔ s.head? = some 60 ∨ Framed 0 s := by
  have hhead : (mem s).headD 0 = s.headD 0 := by
    cases s with
    | nil => rfl
    | cons c s => rfl
  by_cases hxml : s.head? = some 60
  · refine iff_of_true ?_ (.inl hxml)
    have hfirst : (mem s).headD 0 = 60 := by
      rw [hhead, List.headD_eq_head?_getD, hxml]
      rfl
    obtain ⟨k, o, hk⟩ := ends_strip s []
    have hstart : start ((mem s).headD 0) (⟨[], mem s⟩ : Split) = at' .strip 0 [] (s ++ [0]) := by
      rw [start, if_pos hfirst]
      rfl
    obtain ⟨rest, hrest⟩ := unchunk_split (s := s) (n := k) (o := o) (by rw [hstart]; exact hk)
    exact ⟨_, hrest⟩
  · have hfirst : (mem s).headD 0 ≠ 60 := by
      rw [hhead]
      cases s with
      | nil => decide
      | cons c s => simpa using hxml
    have hstart : start ((mem s).headD 0) (⟨[], mem s⟩ : Split) = at' .size 0 [] (s ++ [0]) := by
      rw [start, if_neg hfirst]
      rfl
    rw [or_iff_right hxml]
    constructor
    · rintro ⟨buf, h⟩
      obtain ⟨k, o, hk⟩ := split_of_unchunk h
      rw [hstart] at hk
      exact framed_of_ends k hk
    · intro h
      obtain ⟨k, o, hk⟩ := ends_of_framed h []
      obtain ⟨rest, hrest⟩ := unchunk_split (s := s) (n := k) (o := o) (by rw [hstart]; exact hk)
      exact ⟨_, hrest⟩

end Buffer

/-! ## Numbers in hexadecimal -/

section Hex

variable {n : Nat} {ds : List UInt8}

theorem le_hexValue_from (ds : List UInt8) (v : Nat) :
    v ≤ ds.foldl (fun v c => 16 * v + (hexDigit c).getD 0) v := by
  induction ds generalizing v with
  | nil => exact Nat.le_refl v
  | cons c ds ih =>
    have hstep : v ≤ 16 * v + (hexDigit c).getD 0 := by omega
    exact Nat.le_trans hstep (ih _)

theorem shiftLeft_eq {v : Nat} (h : 16 * v < 2 ^ 31) : shiftLeft v = (16 * v : Nat) := by
  have hint : IsInt ((v : Int) * 16) := ⟨by lia, by lia⟩
  rw [shiftLeft, ofDword_toDword hint]
  lia

theorem accumulate_eq (ds : List UInt8) (v : Nat)
    (h : ds.foldl (fun v c => 16 * v + (hexDigit c).getD 0) v < 2 ^ 31) :
    accumulate v ds = (ds.foldl (fun v c => 16 * v + (hexDigit c).getD 0) v : Nat) := by
  induction ds generalizing v with
  | nil => rfl
  | cons c ds ih =>
    have hle := le_hexValue_from ds (16 * v + (hexDigit c).getD 0)
    simp only [List.foldl_cons] at h
    have hrest := ih _ h
    have hfirst : shiftLeft v + ((hexDigit c).getD 0 : Nat)
        = (16 * v + (hexDigit c).getD 0 : Nat) := by
      rw [shiftLeft_eq (by lia)]
      rfl
    have hcons : accumulate v (c :: ds)
        = accumulate (shiftLeft v + ((hexDigit c).getD 0 : Nat)) ds := rfl
    rw [hcons, hfirst, hrest]
    rfl

theorem Spelled.accumulate (h : Spelled n ds) (hn : n < 2 ^ 31) :
    Unchunk.accumulate 0 ds = n := by
  have hvalue : ds.foldl (fun v c => 16 * v + (hexDigit c).getD 0) 0 = n := h.value
  have hacc := accumulate_eq ds 0 (by rw [hvalue]; exact hn)
  rw [hvalue] at hacc
  exact hacc

/-- The code of `'0'`. -/
abbrev zero : UInt8 := 48

theorem Spelled.zeros (h : Spelled n ds) (j : Nat) : Spelled n (List.replicate j zero ++ ds) := by
  induction j with
  | zero => exact h
  | succ j ih =>
    refine ⟨List.cons_ne_nil _ _, List.forall_mem_cons.mpr ⟨by decide, ih.digits⟩, ?_⟩
    exact ih.value

def digit (d : Nat) : UInt8 := if d < 10 then UInt8.ofNat (48 + d) else UInt8.ofNat (87 + d)

theorem hexDigit_digit : ∀ d < 16, hexDigit (digit d) = some d := by decide

theorem spelled_exists (n : Nat) : ∃ ds, Spelled n ds := by
  induction n using Nat.strongRecOn with
  | ind n ih =>
    have hdigit := hexDigit_digit (n % 16) (Nat.mod_lt _ (by decide))
    have hhex : isHex (digit (n % 16)) = true := by rw [isHex, hdigit]; rfl
    by_cases hsmall : n < 16
    · rw [Nat.mod_eq_of_lt hsmall] at hdigit hhex
      refine ⟨[digit n], List.cons_ne_nil _ _, by simpa using hhex, ?_⟩
      simp [hexValue, hdigit]
    · obtain ⟨ds, hds⟩ := ih (n / 16) (by lia)
      refine ⟨ds ++ [digit (n % 16)], by simp, fun c hc => ?_, ?_⟩
      · rcases List.mem_append.mp hc with hc | hc
        · exact hds.digits c hc
        · rw [List.mem_singleton.mp hc]
          exact hhex
      · have hvalue := hds.value
        rw [hexValue] at hvalue ⊢
        rw [List.foldl_append, hvalue]
        simp only [List.foldl_cons, List.foldl_nil, hdigit, Option.getD_some]
        lia

end Hex

/-! ## Bodies -/

section Bodies

variable {eol s out m : List UInt8} {c : Chunk} {cs : List Chunk}

theorem IsEol.breaks (h : IsEol eol) : ∀ c ∈ eol, isBreak c = true := by
  cases h with
  | lf => exact List.forall_mem_singleton.mpr rfl
  | crlf => exact List.forall_mem_cons.mpr ⟨rfl, List.forall_mem_singleton.mpr rfl⟩

theorem IsEol.head (h : IsEol eol) : ∃ c t, eol = c :: t ∧ isLineEnd c = true ∧ isHex c = false := by
  cases h with
  | lf => exact ⟨10, [], rfl, rfl, rfl⟩
  | crlf => exact ⟨13, [10], rfl, rfl, rfl⟩

theorem kept_append (a b : List UInt8) : kept (a ++ b) = kept a ++ kept b := List.filter_append ..

theorem kept_breaks {w : List UInt8} (hw : ∀ c ∈ w, isBreak c = true) : kept w = [] :=
  List.filter_eq_nil_iff.mpr fun c hc => by simp [hw c hc]

theorem kept_zeros (j : Nat) : kept (List.replicate j zero) = List.replicate j zero :=
  List.filter_eq_self.mpr fun c hc => by rw [(List.mem_replicate.mp hc).2]; rfl

theorem reaches_before {ds : List UInt8} {n : Nat} (hds : Spelled n ds) (hpos : 0 < n)
    (hn : n < 2 ^ 31) (heol : IsEol eol) (out m : List UInt8) :
    ∃ k, Reaches (step split) k (at' .size 0 out (ds ++ (eol ++ m)))
      (at' .before n out (eol ++ m)) := by
  obtain ⟨c, t, rfl, hline, hhex⟩ := heol.head
  have hdigits : Reaches (step split) ds.length (at' .size 0 out (ds ++ (c :: t ++ m)))
      (at' .size (accumulate 0 ds) out (c :: t ++ m)) := reaches_digits hds.digits
  rw [hds.accumulate hn] at hdigits
  have hread : sizeRead (n : Int) c = n := if_pos hline
  have hsome : sizeRead (n : Int) c ≠ 0 := by
    rw [hread]
    omega
  have hsize : Reaches (step split) 1 (at' .size n out (c :: t ++ m))
      (at' .before n out (c :: t ++ m)) := by
    refine Reaches.step ?_
    rw [List.cons_append, step_sizeRead hhex, if_neg hsome, hread]
  exact ⟨_, hdigits.trans hsize⟩

theorem reaches_begin {w : List UInt8} (hw : ∀ c ∈ w, isBreak c = true) {c : UInt8}
    (hc : isBreak c = false) (n : Int) (out m : List UInt8) :
    ∃ k, Reaches (step split) k (at' .before n out (w ++ c :: m)) (at' .data n out (c :: m)) :=
  ⟨_, (reaches_skip (.inl rfl) hw).trans (reaches_data hc)⟩

theorem reaches_finish (d : List UInt8) {w : List UInt8} (hw : ∀ c ∈ w, isBreak c = true)
    {c : UInt8} (hc : isBreak c = false) (out m : List UInt8) :
    ∃ k, Reaches (step split) k (at' .data d.length out (d ++ (w ++ c :: m)))
      (at' .size 0 (out ++ kept d) (c :: m)) := by
  have hcopied : Reaches (step split) d.length (at' .data (d.length + 0 : Nat) out (d ++ (w ++ c :: m)))
      (at' .data 0 (out ++ kept d) (w ++ c :: m)) := reaches_copied d
  exact ⟨_, ((hcopied.trans (reaches_after (Int.le_refl 0))).trans (reaches_skip (.inr rfl) hw)).trans
    (reaches_size hc)⟩

def taken (eol data : List UInt8) : Nat :=
  if data.dropWhile isBreak = [] then data.length
  else (data.takeWhile isBreak).length - eol.length

theorem taken_eq_zero_iff (eol : List UInt8) (c : Chunk) : taken eol c.data = 0 ↔ Begins eol c := by
  have hsplit := List.takeWhile_append_dropWhile (p := isBreak) (l := c.data)
  rw [taken]
  by_cases hrest : c.data.dropWhile isBreak = []
  · rw [if_pos hrest]
    refine iff_of_false (fun h => c.nonempty (List.length_eq_zero_iff.mp h)) ?_
    rintro ⟨u, x, v, hdata, -, hx, -⟩
    have hmem : x ∈ c.data := by rw [hdata]; simp
    rw [List.dropWhile_eq_nil_iff.mp hrest x hmem] at hx
    cases hx
  · rw [if_neg hrest, Nat.sub_eq_zero_iff_le]
    constructor
    · intro hle
      obtain ⟨x, v, hxv⟩ := List.exists_cons_of_ne_nil hrest
      have hx := List.head_dropWhile_not isBreak (l := c.data) hrest
      simp only [hxv, List.head_cons] at hx
      exact ⟨_, x, v, by rw [← hxv, hsplit], fun y hy => List.mem_takeWhile_imp hy, hx, hle⟩
    · rintro ⟨u, x, v, hdata, hu, hx, hle⟩
      have htake : c.data.takeWhile isBreak = u := by
        rw [hdata, List.takeWhile_append_of_pos hu, List.takeWhile_cons_of_neg (by simp [hx]),
          List.append_nil]
      rw [htake]
      exact hle

theorem breaks_append {a b : List UInt8} (ha : ∀ c ∈ a, isBreak c = true)
    (hb : ∀ c ∈ b, isBreak c = true) : ∀ c ∈ a ++ b, isBreak c = true :=
  List.forall_mem_append.mpr ⟨ha, hb⟩

theorem reaches_blank (heol : IsEol eol) {d : UInt8} (hd : isBreak d = false)
    (hbreaks : ∀ y ∈ c.data, isBreak y = true) (out m : List UInt8) :
    ∃ k, Reaches (step split) k
      (at' .before c.data.length out
        (eol ++ (c.data ++ (eol ++ (List.replicate c.data.length zero ++ d :: m)))))
      (at' .size 0 (out ++ (kept c.data ++ List.replicate c.data.length zero)) (d :: m)) := by
  have hpos := List.length_pos_iff.mpr c.nonempty
  obtain ⟨j, hj⟩ := Nat.exists_eq_succ_of_ne_zero (Nat.pos_iff_ne_zero.mp hpos)
  have hzeros : List.replicate c.data.length zero = zero :: List.replicate j zero := by
    rw [hj, List.replicate_succ]
  have hskip := breaks_append heol.breaks (breaks_append hbreaks heol.breaks)
  obtain ⟨k₁, hbegin⟩ := reaches_begin hskip (c := zero) (by decide) c.data.length out
    (List.replicate j zero ++ d :: m)
  obtain ⟨k₂, hfinish⟩ := reaches_finish (List.replicate c.data.length zero) (w := [])
    (by simp) hd out m
  rw [List.length_replicate, List.nil_append, kept_zeros] at hfinish
  rw [← List.cons_append, ← hzeros, List.append_assoc, List.append_assoc] at hbegin
  rw [kept_breaks hbreaks, List.nil_append]
  exact ⟨_, hbegin.trans hfinish⟩

theorem reaches_shifted (heol : IsEol eol) {d : UInt8} (hd : isBreak d = false)
    (text : List UInt8) (skipped : Nat) (out m : List UInt8) :
    ∃ k, Reaches (step split) k
      (at' .data (text.length + skipped : Nat) out
        (text ++ (eol ++ (List.replicate (skipped - eol.length) zero ++ d :: m))))
      (at' .size 0 (out ++ (kept text ++ List.replicate (skipped - eol.length) zero)) (d :: m)) := by
  by_cases hle : skipped ≤ eol.length
  · obtain ⟨k, hfinish⟩ := reaches_finish (text ++ eol.take skipped) (w := eol.drop skipped)
      (fun y hy => heol.breaks y (List.mem_of_mem_drop hy)) hd out m
    have hcount : (text ++ eol.take skipped).length = text.length + skipped := by
      rw [List.length_append, List.length_take, Nat.min_eq_left hle]
    have hcells : text ++ eol.take skipped ++ (eol.drop skipped ++ d :: m)
        = text ++ (eol ++ d :: m) := by
      rw [List.append_assoc, ← List.append_assoc (eol.take _), List.take_append_drop]
    rw [hcount, hcells, kept_append,
      kept_breaks (fun y hy => heol.breaks y (List.mem_of_mem_take hy)), List.append_nil] at hfinish
    rw [Nat.sub_eq_zero_of_le hle, List.replicate_zero, List.append_nil]
    exact ⟨k, hfinish⟩
  · obtain ⟨k, hfinish⟩ := reaches_finish
      (text ++ (eol ++ List.replicate (skipped - eol.length) zero)) (w := []) (by simp) hd out m
    have hcount : (text ++ (eol ++ List.replicate (skipped - eol.length) zero)).length
        = text.length + skipped := by
      rw [List.length_append, List.length_append, List.length_replicate]
      lia
    rw [hcount, kept_append, kept_append, kept_breaks heol.breaks, List.nil_append, kept_zeros,
      List.nil_append, List.append_assoc, List.append_assoc] at hfinish
    exact ⟨k, hfinish⟩

theorem reaches_encoded {ds : List UInt8} (hds : Spelled c.data.length ds) (heol : IsEol eol)
    {d : UInt8} (hd : isBreak d = false) (out m : List UInt8) :
    ∃ k, Reaches (step split) k
      (at' .size 0 out (ds ++ (eol ++ (c.data ++ (eol ++
        (List.replicate (taken eol c.data) zero ++ d :: m))))))
      (at' .size 0 (out ++ (kept c.data ++ List.replicate (taken eol c.data) zero)) (d :: m)) := by
  have hpos := List.length_pos_iff.mpr c.nonempty
  obtain ⟨k₁, hsize⟩ := reaches_before hds hpos c.length_lt heol out
    (c.data ++ (eol ++ (List.replicate (taken eol c.data) zero ++ d :: m)))
  by_cases hrest : c.data.dropWhile isBreak = []
  · obtain ⟨k₂, hblank⟩ := reaches_blank heol hd (List.dropWhile_eq_nil_iff.mp hrest) out m
    have htaken : taken eol c.data = c.data.length := if_pos hrest
    rw [htaken] at hsize ⊢
    exact ⟨_, hsize.trans hblank⟩
  · have hsplit := List.takeWhile_append_dropWhile (p := isBreak) (l := c.data)
    have htaken : taken eol c.data = (c.data.takeWhile isBreak).length - eol.length := if_neg hrest
    have hfront : ∀ y ∈ c.data.takeWhile isBreak, isBreak y = true :=
      fun y hy => List.mem_takeWhile_imp hy
    obtain ⟨x, v, hxv⟩ := List.exists_cons_of_ne_nil hrest
    have hx := List.head_dropWhile_not isBreak (l := c.data) hrest
    simp only [hxv, List.head_cons] at hx
    rw [hxv] at hsplit
    have hkept : kept c.data = kept (x :: v) := by
      rw [← hsplit, kept_append, kept_breaks hfront, List.nil_append]
    have hlength : c.data.length = (x :: v).length + (c.data.takeWhile isBreak).length := by
      rw [Nat.add_comm, ← List.length_append, hsplit]
    have hcells : ∀ l, eol ++ (c.data ++ l) = eol ++ c.data.takeWhile isBreak ++ x :: (v ++ l) := by
      intro l
      conv_lhs => rw [← hsplit]
      simp
    obtain ⟨k₂, hbegin⟩ := reaches_begin (breaks_append heol.breaks hfront) hx c.data.length out
      (v ++ (eol ++ (List.replicate (taken eol c.data) zero ++ d :: m)))
    obtain ⟨k₃, hshifted⟩ := reaches_shifted heol hd (x :: v)
      (c.data.takeWhile isBreak).length out m
    rw [← hlength, ← htaken] at hshifted
    rw [hcells] at hsize
    rw [hcells, hkept]
    exact ⟨_, (hsize.trans hbegin).trans hshifted⟩

/-- What the buffer holds in the end, when there are zeroes enough in front of the sizes. -/
def spoiled (eol : List UInt8) (cs : List Chunk) : List UInt8 :=
  cs.flatMap fun c => kept c.data ++ List.replicate (taken eol c.data) zero

theorem Spelled.head {n : Nat} {ds : List UInt8} (h : Spelled n ds) (m : List UInt8) :
    ∃ d t, ds ++ m = d :: t ∧ isBreak d = false := by
  obtain ⟨d, t, rfl⟩ := List.exists_cons_of_ne_nil h.nonempty
  exact ⟨d, t ++ m, rfl, (isLineEnd_of_isHex (h.digits d List.mem_cons_self)).2⟩

theorem Encoded.head (h : Encoded eol cs s) (m : List UInt8) :
    ∃ d t, s ++ m = d :: t ∧ isBreak d = false := by
  cases h with
  | last hds =>
    rw [List.append_assoc, List.append_assoc]
    exact hds.head _
  | chunk hds _ =>
    simp only [List.append_assoc]
    exact hds.head _

theorem ends_zero {ds : List UInt8} (hds : Spelled 0 ds) (heol : IsEol eol) (out m : List UInt8) :
    ∃ k, rounds (step split) k (at' .size 0 out (ds ++ (eol ++ m))) = .inr (.ok out) := by
  obtain ⟨c, t, rfl, hline, hhex⟩ := heol.head
  have hdigits : Reaches (step split) ds.length (at' .size 0 out (ds ++ (c :: t ++ m)))
      (at' .size (accumulate 0 ds) out (c :: t ++ m)) := reaches_digits hds.digits
  rw [hds.accumulate (by decide)] at hdigits
  have hread : sizeRead ((0 : Nat) : Int) c = 0 := if_pos hline
  have hlast : rounds (step split) 1 (at' .size ((0 : Nat) : Int) out (c :: t ++ m))
      = .inr (.ok out) := by
    rw [rounds, List.cons_append, step_sizeRead hhex, if_pos hread]
  exact ⟨_, hdigits.ends hlast⟩

theorem ends_encoded (heol : IsEol eol) (h : Encoded eol cs s) (hcs : ∀ c ∈ cs, Begins eol c)
    (out : List UInt8) :
    ∃ k, rounds (step split) k (at' .size 0 out (s ++ [0])) = .inr (.ok (out ++ payload cs)) := by
  induction h generalizing out with
  | last hds =>
    obtain ⟨k, hk⟩ := ends_zero hds heol out (eol ++ [0])
    refine ⟨k, ?_⟩
    rw [List.append_assoc, List.append_assoc, payload, List.flatMap_nil, List.append_nil]
    exact hk
  | @chunk c cs ds s hds hs ih =>
    obtain ⟨hc, hrest⟩ := List.forall_mem_cons.mp hcs
    obtain ⟨d, t, hdt, hd⟩ := hs.head [0]
    obtain ⟨k₁, hchunk⟩ := reaches_encoded hds heol hd out t
    rw [(taken_eq_zero_iff eol c).mpr hc, List.replicate_zero, List.append_nil, List.nil_append,
      ← hdt] at hchunk
    obtain ⟨k₂, hk₂⟩ := ih hrest (out ++ kept c.data)
    refine ⟨k₁ + k₂, ?_⟩
    have hpayload : payload (c :: cs) = kept c.data ++ payload cs := List.flatMap_cons
    rw [hpayload, ← List.append_assoc]
    simp only [List.append_assoc] at hchunk hk₂ ⊢
    exact hchunk.ends hk₂

theorem padded_exists (heol : IsEol eol) (N : Nat) (cs : List Chunk)
    (hN : ∀ c ∈ cs, taken eol c.data ≤ N) :
    ∃ s, ∀ j ≤ N, Encoded eol cs (List.replicate j zero ++ s) ∧ ∀ out, ∃ k,
      rounds (step split) k (at' .size 0 out (List.replicate j zero ++ s ++ [0]))
        = .inr (.ok (out ++ spoiled eol cs)) := by
  induction cs with
  | nil =>
    obtain ⟨ds, hds⟩ := spelled_exists 0
    refine ⟨ds ++ eol ++ eol, fun j _ => ⟨?_, fun out => ?_⟩⟩
    · rw [← List.append_assoc, ← List.append_assoc]
      exact .last (hds.zeros j)
    · obtain ⟨k, hk⟩ := ends_zero (hds.zeros j) heol out (eol ++ [0])
      refine ⟨k, ?_⟩
      rw [spoiled, List.flatMap_nil, List.append_nil]
      simpa using hk
  | cons c cs ih =>
    obtain ⟨hc, hrest⟩ := List.forall_mem_cons.mp hN
    obtain ⟨s, hs⟩ := ih hrest
    obtain ⟨ds, hds⟩ := spelled_exists c.data.length
    refine ⟨ds ++ eol ++ c.data ++ eol ++ (List.replicate N zero ++ s), fun j _ => ⟨?_, fun out => ?_⟩⟩
    · have hencoded := Encoded.chunk (hds.zeros j) (hs N (Nat.le_refl N)).1
      simpa using hencoded
    · -- the next size has lost some of its zeroes
      obtain ⟨hs', hends⟩ := hs (N - taken eol c.data) (Nat.sub_le _ _)
      obtain ⟨d, t, hdt, hd⟩ := hs'.head [0]
      obtain ⟨k₁, hchunk⟩ := reaches_encoded (hds.zeros j) heol hd out t
      rw [← hdt] at hchunk
      obtain ⟨k₂, hk₂⟩ := hends (out ++ (kept c.data ++ List.replicate (taken eol c.data) zero))
      have hzeros : List.replicate N zero
          = List.replicate (taken eol c.data) zero ++ List.replicate (N - taken eol c.data) zero := by
        rw [← List.replicate_add, Nat.add_sub_cancel' hc]
      have hspoiled : spoiled eol (c :: cs)
          = (kept c.data ++ List.replicate (taken eol c.data) zero) ++ spoiled eol cs :=
        List.flatMap_cons
      refine ⟨k₁ + k₂, ?_⟩
      rw [hspoiled, hzeros]
      simp only [List.append_assoc] at hchunk hk₂ ⊢
      exact hchunk.ends hk₂

theorem start_encoded (h : Encoded eol cs s) :
    start ((mem s).headD 0) (⟨[], mem s⟩ : Split) = at' .size 0 [] (s ++ [0]) := by
  have hfirst : (mem s).headD 0 ≠ 60 := by
    have hhex : ∃ d t, s ++ [0] = d :: t ∧ isHex d = true := by
      cases h with
      | @last ds hds =>
        obtain ⟨d, t, rfl⟩ := List.exists_cons_of_ne_nil hds.nonempty
        exact ⟨d, _, rfl, hds.digits d List.mem_cons_self⟩
      | @chunk c cs ds s hds _ =>
        obtain ⟨d, t, rfl⟩ := List.exists_cons_of_ne_nil hds.nonempty
        exact ⟨d, _, rfl, hds.digits d List.mem_cons_self⟩
    obtain ⟨d, t, hdt, hd⟩ := hhex
    rw [mem, hdt]
    rintro rfl
    exact absurd hd (by decide)
  rw [start, if_neg hfirst]
  rfl

theorem payload_noNul (cs : List Chunk) : 0 ∉ payload cs := by
  intro hmem
  obtain ⟨c, -, hc⟩ := List.mem_flatMap.mp hmem
  exact c.noNul (List.mem_of_mem_filter hc)

theorem spoiled_noNul (eol : List UInt8) (cs : List Chunk) : 0 ∉ spoiled eol cs := by
  intro hmem
  obtain ⟨c, -, hc⟩ := List.mem_flatMap.mp hmem
  rcases List.mem_append.mp hc with hc | hc
  · exact c.noNul (List.mem_of_mem_filter hc)
  · exact absurd (List.mem_replicate.mp hc).2 (by decide)

theorem eq_of_terminated {a b : List UInt8} {r r' : List UInt8} (ha : 0 ∉ a) (hb : 0 ∉ b)
    (h : a ++ 0 :: r = b ++ 0 :: r') : a = b := by
  have htake : ∀ (l : List UInt8) (m : List UInt8), 0 ∉ l →
      (l ++ 0 :: m).takeWhile (· ≠ 0) = l := by
    intro l m hl
    rw [List.takeWhile_append_of_pos fun c hc => by simpa using ne_of_mem_of_not_mem hc hl]
    simp
  rw [← htake a r ha, h, htake b r' hb]

theorem spoiled_length (eol : List UInt8) (cs : List Chunk) :
    (spoiled eol cs).length = (payload cs).length + (cs.map fun c => taken eol c.data).sum := by
  induction cs with
  | nil => rfl
  | cons c cs ih =>
    have hspoiled : spoiled eol (c :: cs)
        = (kept c.data ++ List.replicate (taken eol c.data) zero) ++ spoiled eol cs :=
      List.flatMap_cons
    have hpayload : payload (c :: cs) = kept c.data ++ payload cs := List.flatMap_cons
    rw [hspoiled, hpayload, List.length_append, List.length_append, List.length_append, ih,
      List.length_replicate, List.map_cons, List.sum_cons]
    lia

theorem unchunksTo_iff (heol : IsEol eol) (cs : List Chunk) :
    UnchunksTo eol cs ↔ ∀ c ∈ cs, Begins eol c := by
  constructor
  · intro h
    obtain ⟨s, hs⟩ := padded_exists heol (cs.map fun c => taken eol c.data).sum cs
      fun c hc => List.le_sum_of_mem (List.mem_map_of_mem hc)
    obtain ⟨hencoded, hends⟩ := hs 0 (Nat.zero_le _)
    rw [List.replicate_zero, List.nil_append] at hencoded hends
    obtain ⟨rest, n, hbuf⟩ := h s hencoded
    obtain ⟨k, hk⟩ := hends []
    rw [List.nil_append] at hk
    obtain ⟨rest', n', hbuf'⟩ := unchunk_split (s := s) (n := k) (o := spoiled eol cs)
      (by rw [start_encoded hencoded]; exact hk)
    have hsame := rounds_unique hbuf hbuf'
    have heq := eq_of_terminated (payload_noNul cs) (spoiled_noNul eol cs) (Except.ok.inj hsame)
    have hlength := spoiled_length eol cs
    rw [← heq] at hlength
    intro c hc
    have hle : taken eol c.data ≤ (cs.map fun c => taken eol c.data).sum :=
      List.le_sum_of_mem (List.mem_map_of_mem hc)
    exact (taken_eq_zero_iff eol c).mp (by lia)
  · intro h s hs
    obtain ⟨k, hk⟩ := ends_encoded heol hs h []
    rw [List.nil_append] at hk
    exact unchunk_split (s := s) (n := k) (by rw [start_encoded hs]; exact hk)

/-- The bodies whose every encoding comes out right, and the strings that are not read past their
terminator. -/
theorem unchunk_iff (eol : {l // IsEol l}) (cs : List Chunk) (s : CStr) :
    (UnchunksTo eol cs ↔ ∀ c ∈ cs, Begins eol c) ∧
      ((∃ buf, HttpUnchunkData s.chars buf) ↔
        s.chars.head? = some 60 ∨ Framed 0 s.chars) :=
  ⟨unchunksTo_iff eol.2 cs, unchunk_ends_iff s.chars⟩

def blankLines : Chunk := ⟨[10, 10, 10, 97, 98], by decide, by decide, by decide⟩

/-- `"5\r\n\n\n\nab\r\n0\r\n\r\n"`: the zero of the last size line comes out as data. -/
theorem blankLines_spoiled : ¬ UnchunksTo [13, 10] [blankLines] := by
  intro h
  have hfive : Spelled 5 [53] := ⟨by decide, List.forall_mem_singleton.mpr rfl, rfl⟩
  have hzero : Spelled 0 [48] := ⟨by decide, List.forall_mem_singleton.mpr rfl, rfl⟩
  obtain ⟨rest, n, hn⟩ := h _ (.chunk hfive (.last hzero))
  have hbuf : rounds (step inPlace) 20 (start 53 ⟨mem ([53] ++ [13, 10] ++ blankLines.data ++ [13, 10]
      ++ ([48] ++ [13, 10] ++ [13, 10])), 0, 0⟩)
      = .inr (.ok [97, 98, 48, 0, 10, 10, 97, 98, 13, 10, 48, 13, 10, 13, 10, 0]) := rfl
  have hsame := Except.ok.inj (rounds_unique hn hbuf)
  have hthird : some (0 : UInt8) = some 48 := congrArg (fun l => l[2]?) hsame
  exact absurd hthird (by decide)

end Bodies

end Hplip.Sane.Unchunk
