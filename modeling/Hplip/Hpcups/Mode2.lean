import Hplip.Hpcups.Compressor
import Hplip.Lib.CommandStream
import Hplip.Lib.Loop

/-!
# Mode 2: TIFF packbits rows (Mode2.cpp)

A row is written as runs and literals: a control byte from 129 on repeats the
byte behind it, one up to 127 announces literals. A literal ends before two
equal bytes, so that the row spends at most four bytes on three.

Counts are natural numbers where the source cannot make them negative, and
sizes do not wrap around.
-/

namespace Hplip.Hpcups.Mode2

open Loop CommandStream

/-! ## The compressor -/

/-- `Mode2::Mode2`, which has no seed row: `heap` is what its pointer leads to. -/
def new (rasterSize : Nat) (heap : Mem) (myplane : ColorType) : Compressor where
  compressBuf := []
  seedRow := heap
  compressedsize := 0
  inputsize := rasterSize
  seeded := false
  iRastersReady := 0
  myplane := myplane

section Row

variable (data : Mem) (size : Nat)

/-- The loop over a run; the state is `ni` and `nrepeatcount`. -/
def repeatScan (ni nrepeatcount : Nat) : Option (Nat × Nat) :=
  whileDo (fun s : Nat × Nat => s.1 < size ∧ s.2 < 127 ∧ data s.1 = data (s.1 - 1))
    (fun s => (s.1 + 1, s.2 + 1)) 128 (ni, nrepeatcount)

/-- The loop over literals; the state is `ni` and `nliteralcount`. An element
equal to the one before it takes that one out again. -/
def literalScan (ni : Nat) (nliteralcount : Int) : Option (Nat × Int) :=
  loop (fun s : Nat × Int =>
    if s.1 < size ∧ s.2 < 127 then
      if data s.1 = data (s.1 - 1) then some (.inr (s.1 - 1, s.2 - 1))
      else some (.inl (s.1 + 1, s.2 + 1))
    else some (.inr s)) 129 (ni, nliteralcount)

structure Locals where
  ni : Nat
  out : List UInt8

/-- One iteration of the main loop; `.inr` leaves it with the output. -/
def iter (s : Locals) : Option (Locals ⊕ List UInt8) :=
  if s.ni < size then
    if s.ni + 1 < size ∧ data s.ni = data (s.ni + 1) then do
      let (ni, nrepeatcount) ← repeatScan data size (s.ni + 2) 1
      let trunc := UInt8.ofInt (0 - nrepeatcount)
      some (.inl ⟨ni, s.out ++ [trunc, data (ni - 1)]⟩)
    else do
      let (ni, nliteralcount) ← literalScan data size (s.ni + 1) 0
      some (.inl ⟨ni, s.out ++ UInt8.ofInt nliteralcount ::
        slice data s.ni (nliteralcount + 1).toNat⟩)
  else some (.inr s.out)

def compress : Option (List UInt8) :=
  loop (iter data size) (size + 1) ⟨0, []⟩

end Row

/-- `Mode2::Process`; the flag is its result. -/
def process (c : Compressor) (input : Option RasterData) : Option (Compressor × Bool) :=
  match input with
  | none => some ({ c with compressedsize := 0, iRastersReady := 0 }, false)
  | some raster =>
    match raster.rasterdata c.myplane with
    | none => some ({ c with compressedsize := 0, iRastersReady := 0 }, false)
    | some data => do
      let out ← compress data (raster.rastersize c.myplane)
      some ({ c with
        compressBuf := out
        compressedsize := out.length
        iRastersReady := 1 }, true)

/-! ## The printer's side -/

/-- One packbits command; the state is the part of the row that is known. -/
def decodeStep : Step (List UInt8) UInt8
  | _, [] => none
  | done, c :: bs =>
    if c.toNat ≤ 127 then do
      check (c.toNat + 1 ≤ bs.length)
      some (done ++ bs.take (c.toNat + 1), bs.drop (c.toNat + 1))
    else if c.toNat = 128 then none
    else
      match bs with
      | [] => none
      | b :: bs => some (done ++ List.replicate (257 - c.toNat) b, bs)

def decodeRow (bytes : List UInt8) : Option (List UInt8) :=
  decode decodeStep bytes.length [] bytes

/-! ## Commands -/

theorem toNat_literal {n : Nat} (h : n ≤ 127) : (UInt8.ofInt n).toNat = n := by
  rw [UInt8.ofInt, UInt8.toNat_ofNat']
  lia

theorem toNat_repeat {n : Nat} (hpos : 1 ≤ n) (h : n ≤ 127) :
    (UInt8.ofInt (0 - n)).toNat = 256 - n := by
  rw [UInt8.ofInt, UInt8.toNat_ofNat']
  lia

theorem decodeStep_repeat (done rest : List UInt8) (b : UInt8) {n : Nat} (hpos : 1 ≤ n)
    (h : n ≤ 127) : decodeStep done (UInt8.ofInt (0 - n) :: b :: rest)
      = some (done ++ List.replicate (n + 1) b, rest) := by
  have hc := toNat_repeat hpos h
  rw [decodeStep, hc, if_neg (by lia), if_neg (by lia)]
  show some (done ++ List.replicate (257 - (256 - n)) b, rest) = _
  rw [show 257 - (256 - n) = n + 1 by lia]

theorem decodeStep_literal (done bytes rest : List UInt8) {n : Nat} (h : n ≤ 127)
    (hbytes : bytes.length = n + 1) :
    decodeStep done (UInt8.ofInt n :: (bytes ++ rest)) = some (done ++ bytes, rest) := by
  have hc := toNat_literal h
  have hroom : n + 1 ≤ (bytes ++ rest).length := by
    rw [List.length_append]
    omega
  unfold decodeStep
  dsimp only
  rw [hc, if_pos h, check_pos hroom]
  show some (done ++ (bytes ++ rest).take (n + 1), (bytes ++ rest).drop (n + 1)) = _
  rw [List.take_left' hbytes, List.drop_left' hbytes]

/-! ## The inner loops -/

section Row

variable {data : Mem} {size : Nat}

theorem repeatScan_spec {start : Nat} (hroom : start + 1 < size)
    (heq : data start = data (start + 1)) :
    Returns (repeatScan data size (start + 2) 1) fun s => ∃ n, 1 ≤ n ∧ n ≤ 127 ∧
      s = (start + n + 1, n) ∧ start + n + 1 ≤ size ∧
      ∀ j ≤ n, data (start + j) = data (start + n) := by
  refine (Returns.whileDo (fun s : Nat × Nat => ∃ n, 1 ≤ n ∧ n ≤ 127 ∧
      s = (start + n + 1, n) ∧ start + n + 1 ≤ size ∧
      ∀ j ≤ n, data (start + j) = data (start + n)) (fun s : Nat × Nat => 127 - s.2) ?_ 128 _
    ⟨1, Nat.le_refl 1, by decide, rfl, hroom, fun j hj => ?_⟩ ?_).mono fun _ h => h.1
  · rintro _ ⟨n, hpos, hle, rfl, hfit, hrun⟩ ⟨hlt, hcount, hsame⟩
    have hlt : start + n + 1 < size := hlt
    have hcount : n < 127 := hcount
    have hsame : data (start + n + 1) = data (start + n) := hsame
    refine ⟨⟨n + 1, by lia, hcount, rfl, hlt, fun j hj => ?_⟩, ?_⟩
    · rw [← Nat.add_assoc, hsame]
      rcases Nat.le_or_eq_of_le_succ hj with hj | rfl
      · exact hrun j hj
      · exact hsame
    · show 127 - (n + 1) < 127 - n
      lia
  · obtain rfl | rfl : j = 0 ∨ j = 1 := by lia
    · exact heq
    · rfl
  · show 127 - 1 < 128
    decide

/-- Two equal bytes at `i`, where a run starts. -/
def RunAt (data : Mem) (size i : Nat) : Prop := i + 1 < size ∧ data i = data (i + 1)

theorem literalScan_spec {start : Nat} (hstart : start < size)
    (hno : ¬ RunAt data size start) :
    Returns (literalScan data size (start + 1) 0) fun s => ∃ n : Nat, n ≤ 127 ∧
      s = (start + n + 1, (n : Int)) ∧ start + n + 1 ≤ size ∧
      (n = 127 ∨ start + n + 1 = size ∨ RunAt data size (start + n + 1)) := by
  refine Returns.loop (fun s : Nat × Int => ∃ n : Nat, n ≤ 127 ∧ s = (start + n + 1, (n : Int)) ∧
      start + n + 1 ≤ size) (fun s : Nat × Int => (127 - s.2).toNat) ?_ _ _
    ⟨0, Nat.zero_le _, rfl, hstart⟩ (by show (127 - (0 : Int)).toNat < 129; decide)
  rintro _ ⟨n, hle, rfl, hfit⟩
  refine Returns.ite (fun hgo => ?_) (fun hstop => ?_)
  · obtain ⟨hlt, hcount⟩ := hgo
    have hlt : start + n + 1 < size := hlt
    have hcount : (n : Int) < 127 := hcount
    refine Returns.ite (fun hsame => ?_) (fun _ => ?_)
    · have hsame : data (start + n + 1) = data (start + n) := hsame
      cases n with
      | zero =>
        -- the first literal does not start a run
        exact absurd ⟨hlt, hsame.symm⟩ hno
      | succ n =>
        refine Returns.pure ⟨n, by lia, ?_, by lia, .inr (.inr ⟨hlt, hsame.symm⟩)⟩
        show (start + (n + 1) + 1 - 1, ((n + 1 : Nat) : Int) - 1) = _
        rw [Nat.add_sub_cancel, Int.natCast_succ, Int.add_sub_cancel, ← Nat.add_assoc]
    · refine Returns.pure ⟨⟨n + 1, by lia, rfl, hlt⟩, ?_⟩
      show (127 - ((n : Int) + 1)).toNat < (127 - (n : Int)).toNat
      lia
  · refine Returns.pure ⟨n, hle, rfl, hfit, ?_⟩
    have hstop : ¬ (start + n + 1 < size ∧ (n : Int) < 127) := hstop
    lia

/-! ## The main loop -/

variable (data size) in
/-- What the main loop keeps: the bytes give the row up to `ni`, and are four for
three of it, but for two thirds of a byte that the next run makes up for. -/
structure Inv (s : Locals) : Prop where
  le : s.ni ≤ size
  takes : Takes decodeStep [] s.out (slice data 0 s.ni)
  size : 3 * s.out.length ≤ 4 * s.ni ∨
    (3 * s.out.length ≤ 4 * s.ni + 2 ∧ (s.ni = size ∨ RunAt data size s.ni))

structure Done (data : Mem) (size : Nat) (out : List UInt8) : Prop where
  takes : Takes decodeStep [] out (slice data 0 size)
  size : out.length ≤ (4 * size + 2) / 3

theorem Inv.repeat {s : Locals} (h : Inv data size s) {n : Nat} (hpos : 1 ≤ n) (hle : n ≤ 127)
    (hfit : s.ni + n + 1 ≤ size) (hrun : ∀ j ≤ n, data (s.ni + j) = data (s.ni + n)) :
    Inv data size ⟨s.ni + n + 1, s.out ++ [UInt8.ofInt (0 - n), data (s.ni + n)]⟩ where
  le := hfit
  takes := by
    refine h.takes.snoc (by simp) fun rest => ?_
    show decodeStep _ (UInt8.ofInt (0 - n) :: data (s.ni + n) :: rest) = _
    rw [decodeStep_repeat _ _ _ hpos hle, Nat.add_assoc, slice_add, Nat.zero_add,
      slice_eq_replicate fun j hj => hrun j (Nat.le_of_lt_succ hj)]
  size := by
    have hsize := h.size
    left
    show 3 * (s.out ++ [_, _]).length ≤ 4 * (s.ni + n + 1)
    rw [List.length_append]
    show 3 * (s.out.length + 2) ≤ 4 * (s.ni + n + 1)
    lia

theorem Inv.literal {s : Locals} (h : Inv data size s) (hlt : s.ni < size)
    (hno : ¬ RunAt data size s.ni) {n : Nat} (hle : n ≤ 127) (hfit : s.ni + n + 1 ≤ size)
    (hend : n = 127 ∨ s.ni + n + 1 = size ∨ RunAt data size (s.ni + n + 1)) :
    Inv data size ⟨s.ni + n + 1, s.out ++ UInt8.ofInt n :: slice data s.ni (n + 1)⟩ where
  le := hfit
  takes := by
    refine h.takes.snoc (by simp) fun rest => ?_
    rw [List.cons_append, decodeStep_literal _ _ _ hle (slice_length ..)]
    show some (_, rest) = some (slice data 0 (s.ni + (n + 1)), rest)
    rw [slice_add data 0 s.ni (n + 1), Nat.zero_add]
  size := by
    -- before literals nothing is owed: a run would have come first
    have hsize : 3 * s.out.length ≤ 4 * s.ni := by
      rcases h.size with hsize | ⟨-, hend | hrun⟩
      · exact hsize
      · lia
      · exact absurd hrun hno
    show 3 * (s.out ++ _ :: _).length ≤ 4 * (s.ni + n + 1) ∨
      (3 * (s.out ++ _ :: _).length ≤ 4 * (s.ni + n + 1) + 2 ∧
        (s.ni + n + 1 = size ∨ RunAt data size (s.ni + n + 1)))
    rw [List.length_append, List.length_cons, slice_length]
    rcases hend with rfl | hend
    · left
      lia
    · right
      exact ⟨by lia, hend⟩

theorem iter_spec {s : Locals} (h : Inv data size s) :
    Returns (iter data size s) fun r => Sum.elim
      (fun s' => Inv data size s' ∧ size - s'.ni < size - s.ni) (Done data size) r := by
  unfold iter
  refine Returns.ite (fun hlt => ?_) (fun hge => ?_)
  · refine Returns.ite (fun hrun => ?_) (fun hno => ?_)
    · refine Returns.bind (repeatScan_spec hrun.1 hrun.2) ?_
      rintro _ ⟨n, hpos, hle, rfl, hfit, heq⟩
      refine Returns.pure ⟨h.repeat hpos hle hfit heq, ?_⟩
      show size - (s.ni + n + 1) < size - s.ni
      lia
    · refine Returns.bind (literalScan_spec hlt hno) ?_
      rintro _ ⟨n, hle, rfl, hfit, hend⟩
      refine Returns.pure ⟨h.literal hlt hno hle hfit hend, ?_⟩
      show size - (s.ni + n + 1) < size - s.ni
      lia
  · have hend : s.ni = size := Nat.le_antisymm h.le (Nat.not_lt.mp hge)
    have htakes := h.takes
    have hsize := h.size
    rw [hend] at htakes hsize
    exact Returns.pure ⟨htakes, by lia⟩

theorem compress_spec (data : Mem) (size : Nat) :
    Returns (compress data size) (Done data size) :=
  Returns.loop (Inv data size) (fun s : Locals => size - s.ni) (fun _ hs => iter_spec hs)
    (size + 1) _ ⟨Nat.zero_le _, .nil _, .inl (Nat.le_refl _)⟩
    (Nat.lt_succ_of_le (Nat.sub_le _ _))

end Row

/-- **Round trip.** The packbits rule gives the row back, and the row costs no
more than four bytes for three. -/
theorem mode2_round_trip (c : Compressor) (raster : RasterData) (data : Mem)
    (hdata : raster.rasterdata c.myplane = some data) :
    Returns (process c (some raster)) fun r => r.2 = true ∧
      decodeRow r.1.compressBuf = some (slice data 0 (raster.rastersize c.myplane)) ∧
      r.1.compressedsize = r.1.compressBuf.length ∧
      r.1.compressedsize ≤ (4 * raster.rastersize c.myplane + 2) / 3 := by
  unfold process
  dsimp only
  rw [hdata]
  refine Returns.bind (compress_spec data (raster.rastersize c.myplane)) ?_
  intro out hout
  exact Returns.pure ⟨rfl, hout.takes.decode_eq (Nat.le_refl _), rfl, hout.size⟩

/-- A byte and a pair: four bytes for three. -/
theorem mode2_round_trip_three : Returns
    (process (new 3 (fun _ => 0) .black) (some (.only .black (ofList [7, 9, 9] 0) 3)))
      fun r => decodeRow r.1.compressBuf = some [7, 9, 9] ∧ r.1.compressedsize ≤ 4 := by
  refine (mode2_round_trip (new 3 (fun _ => 0) .black) _ (ofList [7, 9, 9] 0) rfl).mono ?_
  rintro r ⟨-, hdecode, -, hsize⟩
  exact ⟨hdecode, hsize⟩

end Hplip.Hpcups.Mode2
