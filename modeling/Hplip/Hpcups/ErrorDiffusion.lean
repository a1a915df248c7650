import Hplip.Hpcups.Halftoner
import Hplip.Lib.Machine

/-!
# The error diffusion of a row (Halftoner.cpp)

What one row of `HTEDiffOpen` reads, stores and draws, and from it what every
sequence of rasters does to the error buffers of a halftoner.
-/

namespace Hplip.Hpcups.Halftoner

open Loop Machine Diffuser

/-! ## Arithmetic -/

theorem short_eq {x : Int} (hlow : -32768 ≤ x) (hhigh : x < 32768) : short x = x :=
  Int.bmod_eq_of_le hlow hhigh

theorem short_short_sub (x y : Int) : short (short x - y) = short (x - y) :=
  Int.bmod_sub_bmod

theorem half_eq (x : Int) : half x = x / 2 := Int.shiftRight_eq_div_pow x 1

theorem hpRand_range (r : UInt32) : 5 ≤ (hpRand r).toNat ∧ (hpRand r).toNat ≤ 78 := by
  have hmod : (randomNumber r % 74).toNat < 74 := by
    rw [UInt8.toNat_mod]
    exact Nat.mod_lt _ (by decide)
  have hadd : (hpRand r).toNat = (randomNumber r % 74).toNat + 5 := by
    rw [hpRand, UInt8.toNat_add]
    exact Nat.mod_eq_of_lt (by show (randomNumber r % 74).toNat + 5 < 256; lia)
  rw [hadd]
  constructor
  · exact Nat.le_add_left 5 _
  · lia

/-! ## What a pixel changes -/

section Frame

variable {dir : Int} {table input : Mem} {th : Int} {mask part : UInt8} {d : Diffuser}

theorem setBits_eq (mask : UInt8) (d : Diffuser) : ∃ b1 b2 b3,
    setBits mask d = { d with rasterByte1 := b1, rasterByte2 := b2, rasterByte3 := b3 } := by
  unfold setBits
  split <;> exact ⟨_, _, _, rfl⟩

theorem quantize_eq (part : UInt8) (th : Int) (mask : UInt8) (d : Diffuser) :
    ∃ tone level b1 b2 b3 log, quantize part th mask d = { d with
      tone := tone, level := level, rasterByte1 := b1, rasterByte2 := b2, rasterByte3 := b3,
      log := log } := by
  unfold quantize
  split
  · dsimp only
    split
    · obtain ⟨b1, b2, b3, h⟩ := setBits_eq mask (setTone
        ((setTone (d.tmpShortStore + part.toNat) d).tone - 255)
        { setTone (d.tmpShortStore + part.toNat) d with
          level := (setTone (d.tmpShortStore + part.toNat) d).level + 1 })
      exact ⟨_, _, b1, b2, b3, _, h⟩
    · obtain ⟨b1, b2, b3, h⟩ := setBits_eq mask (setTone (d.tmpShortStore + part.toNat) d)
      exact ⟨_, _, b1, b2, b3, _, h⟩
  · exact ⟨_, _, _, _, _, _, rfl⟩

theorem fed_cursor : (fed dir table input th mask d).toCursor = { d.toCursor with
    inputPtr := d.inputPtr + dir
    diffusionErrorPtr := d.diffusionErrorPtr + dir } := by
  obtain ⟨t, l, b1, b2, b3, log, h⟩ := quantize_eq
    (table (4 * (input d.inputPtr.toNat).toNat + 1)) th mask (load dir table input d)
  rw [fed, h]
  rfl

theorem fed_holdRandom : (fed dir table input th mask d).holdRandom = d.holdRandom := by
  obtain ⟨t, l, b1, b2, b3, log, h⟩ := quantize_eq
    (table (4 * (input d.inputPtr.toNat).toNat + 1)) th mask (load dir table input d)
  rw [fed, h]
  rfl

theorem fed_congr {input' : Mem} (h : input d.inputPtr.toNat = input' d.inputPtr.toNat) :
    fed dir table input th mask d = fed dir table input' th mask d := by
  rw [fed, fed, load, load, h]

end Frame

/-! ## Pixels and groups -/

section Pixels

variable {dir : Int} {table input : Mem}

theorem pixels_cons (mask : UInt8) (masks : List UInt8) (d : Diffuser) :
    pixels (fed dir table input) (mask :: masks) d = pixels (fed dir table input) masks
      (fed dir table input (hpRand (nextRandom d.holdRandom)).toNat mask
        { d with holdRandom := nextRandom d.holdRandom }) := by
  simp only [pixels, List.foldl_cons]

theorem pixels_cursor (masks : List UInt8) (d : Diffuser) :
    (pixels (fed dir table input) masks d).toCursor = { d.toCursor with
      inputPtr := d.inputPtr + dir * masks.length
      diffusionErrorPtr := d.diffusionErrorPtr + dir * masks.length } := by
  induction masks generalizing d with
  | nil => simp [pixels]
  | cons mask masks ih =>
    rw [pixels_cons, ih, fed_cursor, List.length_cons, Int.natCast_succ, Int.mul_add, Int.mul_one,
      Int.add_comm (dir * _), ← Int.add_assoc, ← Int.add_assoc]

theorem pixels_holdRandom (masks : List UInt8) (d : Diffuser) :
    (pixels (fed dir table input) masks d).holdRandom
      = nextRandom^[masks.length] d.holdRandom := by
  induction masks generalizing d with
  | nil => rfl
  | cons mask masks ih =>
    rw [pixels_cons, ih, fed_holdRandom, List.length_cons, Function.iterate_succ_apply]

theorem pixels_congr {input' : Mem} (masks : List UInt8) (d : Diffuser)
    (h : ∀ k < masks.length, input (d.inputPtr + dir * k).toNat
      = input' (d.inputPtr + dir * k).toNat) :
    pixels (fed dir table input) masks d = pixels (fed dir table input') masks d := by
  induction masks generalizing d with
  | nil => simp only [pixels, List.foldl_nil]
  | cons mask masks ih =>
    rw [pixels_cons, pixels_cons]
    have hfirst := h 0 (Nat.zero_lt_succ _)
    rw [Int.natCast_zero, Int.mul_zero, Int.add_zero] at hfirst
    have hptr : { d with holdRandom := nextRandom d.holdRandom }.inputPtr = d.inputPtr := rfl
    rw [← hptr] at hfirst h
    generalize ({ d with holdRandom := nextRandom d.holdRandom } : Diffuser) = e at hfirst h
    rw [fed_congr hfirst]
    apply ih
    intro k hk
    have hnext := h (k + 1) (Nat.succ_lt_succ hk)
    rw [Int.natCast_succ, Int.mul_add, Int.mul_one, Int.add_comm (dir * _), ← Int.add_assoc]
      at hnext
    rwa [fed_cursor]

end Pixels

def masks (p : DitherParms) : List UInt8 :=
  if p.fRasterEvenOrOdd = 1 then forwardMasks else backwardMasks

theorem masks_length (p : DitherParms) : (masks p).length = 8 := by
  rw [masks]
  split <;> rfl

theorem next8Pixels_eq (p : DitherParms) (d : Diffuser) :
    next8Pixels p d = pixels (fed (dir p) p.fFEDResPtr p.fInput) (masks p) d := by
  rw [next8Pixels, dir, masks]
  split <;> rfl

theorem emit_frame (dir : Int) (hifipe : Bool) (d : Diffuser) :
    (emit dir hifipe d).inputPtr = d.inputPtr ∧
      (emit dir hifipe d).diffusionErrorPtr = d.diffusionErrorPtr ∧
      (emit dir hifipe d).pixelCount = d.pixelCount ∧
      (emit dir hifipe d).holdRandom = d.holdRandom ∧
      (emit dir hifipe d).tmpShortStore = d.tmpShortStore ∧
      (emit dir hifipe d).err = d.err ∧ (emit dir hifipe d).log = d.log := by
  cases hifipe
  · exact ⟨rfl, rfl, rfl, rfl, rfl, rfl, rfl⟩
  · exact ⟨rfl, rfl, rfl, rfl, rfl, rfl, rfl⟩

/-- The place of the `k`-th pixel that a row comes to. -/
def place (p : DitherParms) (k : Nat) : Int :=
  if p.fRasterEvenOrOdd = 1 then k else numLoop p - 1 - k

theorem place_add (p : DitherParms) (k m : Nat) : place p (k + m) = place p k + dir p * m := by
  unfold place dir
  split <;> lia

theorem place_range (p : DitherParms) {k : Nat} (hk : k < numLoop p) :
    0 ≤ place p k ∧ place p k < numLoop p := by
  unfold place
  split <;> constructor <;> omega

/-- The pointers after `g` groups. -/
structure At (p : DitherParms) (g : Nat) (d : Diffuser) : Prop where
  inputPtr : d.inputPtr = place p (8 * g)
  diffusionErrorPtr : d.diffusionErrorPtr = place p (8 * g) + 1
  pixelCount : short (d.pixelCount - 8) = numLoop p - 8 * g

/-- The groups of a row: counts from 2^15 on are negative as a `short`. -/
def groups (p : DitherParms) : Nat := if numLoop p < 32768 then numLoop p / 8 else 0

theorem start_pixelCount (p : DitherParms) (r : UInt32) :
    (start p r).pixelCount = short (numLoop p + 8) := by
  simp only [start, init, writeError, carryError, setTmpShortStore]

theorem init_cursor (p : DitherParms) (r : UInt32) :
    (init p r).inputPtr = place p 0 ∧ (init p r).diffusionErrorPtr = place p 0 + 1 := by
  unfold init place
  dsimp only
  split
  · exact ⟨rfl, rfl⟩
  · constructor
    · omega
    · omega

theorem start_at (p : DitherParms) (r : UInt32) (h : numLoop p < 32768) :
    At p 0 (start p r) := by
  obtain ⟨h1, h2⟩ := init_cursor p r
  refine ⟨h1, h2, ?_⟩
  rw [start_pixelCount, short_short_sub, Int.add_sub_cancel, short_eq (by omega) (by omega)]
  simp

theorem clearError_iterate (dir : Int) (n : Nat) (d : Diffuser) :
    ((clearError dir)^[n] d).inputPtr = d.inputPtr ∧
      ((clearError dir)^[n] d).pixelCount = d.pixelCount ∧
      ((clearError dir)^[n] d).holdRandom = d.holdRandom ∧
      ((clearError dir)^[n] d).diffusionErrorPtr = d.diffusionErrorPtr + dir * n := by
  induction n generalizing d with
  | zero => simp
  | succ n ih =>
    obtain ⟨h1, h2, h3, h4⟩ := ih (clearError dir d)
    rw [Function.iterate_succ_apply]
    refine ⟨h1, h2, h3, h4.trans ?_⟩
    show d.diffusionErrorPtr + dir + dir * n = _
    rw [Int.natCast_succ, Int.mul_add, Int.mul_one, Int.add_comm (dir * n), Int.add_assoc]

theorem group_cursor (p : DitherParms) (d : Diffuser) :
    (group p d).inputPtr = d.inputPtr + dir p * 8 ∧
      (group p d).diffusionErrorPtr = d.diffusionErrorPtr + dir p * 8 ∧
      (group p d).pixelCount = short (d.pixelCount - 8) := by
  unfold group
  dsimp only
  split
  · rw [next8Pixels_eq]
    obtain ⟨h1, h2, h3, -⟩ := emit_frame (dir p) p.fHifipe (pixels
      (fed (dir p) p.fFEDResPtr p.fInput) (masks p)
      { d with pixelCount := short (d.pixelCount - 8) })
    rw [h1, h2, h3, pixels_cursor, masks_length]
    exact ⟨rfl, rfl, rfl⟩
  · obtain ⟨h1, h2, h3, -⟩ := emit_frame (dir p) p.fHifipe
      { d with
        pixelCount := short (d.pixelCount - 8)
        inputPtr := d.inputPtr + 8 * dir p
        rasterByte1 := 0
        rasterByte2 := 0 }
    obtain ⟨c1, c2, -, c4⟩ := clearError_iterate (dir p) 8 (emit (dir p) p.fHifipe
      { d with
        pixelCount := short (d.pixelCount - 8)
        inputPtr := d.inputPtr + 8 * dir p
        rasterByte1 := 0
        rasterByte2 := 0 })
    refine ⟨c1.trans (h1.trans ?_), c4.trans (by rw [h2]; rfl), c2.trans h3⟩
    show d.inputPtr + 8 * dir p = _
    rw [Int.mul_comm]

theorem At.group {p : DitherParms} {g : Nat} {d : Diffuser} (h : At p g d)
    (hlt : numLoop p < 32768) (hg : 8 * (g + 1) ≤ numLoop p) : At p (g + 1) (group p d) := by
  obtain ⟨h1, h2, h3⟩ := group_cursor p d
  have hplace : place p (8 * (g + 1)) = place p (8 * g) + dir p * 8 := place_add p (8 * g) 8
  constructor
  · rw [h1, h.inputPtr, hplace]
  · rw [h2, h.diffusionErrorPtr, hplace, Int.add_right_comm]
  · rw [h3, h.pixelCount, short_eq (by lia) (by lia), Int.natCast_succ]
    lia

theorem at_iterate {p : DitherParms} {r : UInt32} {g : Nat} (hlt : numLoop p < 32768)
    (hg : g ≤ groups p) : At p g ((group p)^[g] (start p r)) := by
  rw [groups, if_pos hlt] at hg
  induction g with
  | zero => exact start_at p r hlt
  | succ g ih =>
    rw [Function.iterate_succ_apply']
    exact (ih (Nat.le_of_succ_le hg)).group hlt (by lia)

/-- **The row, unrolled**: it ends after its groups. -/
theorem hteDiffOpen_eq (p : DitherParms) (r : UInt32) (h8 : 8 ∣ numLoop p) :
    hteDiffOpen p r = some ((group p)^[groups p] (start p r)) := by
  have hbound : numLoop p < 65536 := Nat.mod_lt _ (by decide)
  by_cases hlt : numLoop p < 32768
  · have hgroups : groups p = numLoop p / 8 := if_pos hlt
    have hall : ∀ g ≤ groups p,
        short (((group p)^[g] (start p r)).pixelCount - 8) = numLoop p - 8 * g :=
      fun g hg => (at_iterate hlt hg).pixelCount
    refine whileDo_eq_iterate _ _ _ (by lia) (fun g hg => ?_) ?_
    · rw [hall g (Nat.le_of_lt hg)]
      lia
    · rw [hall _ (Nat.le_refl _)]
      lia
  · -- the count is negative from the start
    have hgroups : groups p = 0 := if_neg hlt
    rw [hgroups]
    refine whileDo_eq_iterate 0 _ _ (by lia) (fun g hg => absurd hg (Nat.not_lt_zero g)) ?_
    rw [Function.iterate_zero_apply, start_pixelCount, short_short_sub, Int.add_sub_cancel]
    have hwrap : short (numLoop p) = numLoop p - 65536 := by
      rw [← short_eq (x := (numLoop p : Int) - 65536) (by lia) (by lia)]
      exact (Int.sub_bmod_right _ 65536).symm
    lia

/-! ## The interval of the error -/

/-- What is promised of an event, in a buffer of `size` entries. The tone holds the
input and the sum in front of the threshold on the way to the value diffused. -/
def Event.Ok (size : Nat) : Event → Prop
  | .tone v => -250 ≤ v ∧ v ≤ 332
  | .diffused v => -250 ≤ v ∧ v ≤ 77
  | .tmpShortStore v => -250 ≤ v ∧ v ≤ 77
  | .read place => 0 ≤ place ∧ place < size
  | .write place v => (0 ≤ place ∧ place < size) ∧ -125 ≤ v ∧ v ≤ 38

/-- The value survives its conversion to `short`. -/
def Event.Fits : Event → Prop
  | .tone v | .diffused v | .tmpShortStore v | .write _ v => short v = v
  | .read _ => True

theorem Event.Ok.fits {size : Nat} {e : Event} (h : e.Ok size) : e.Fits := by
  cases e with
  | tone v => exact short_eq (Int.le_trans (by decide) h.1) (Int.lt_of_le_of_lt h.2 (by decide))
  | diffused v =>
    exact short_eq (Int.le_trans (by decide) h.1) (Int.lt_of_le_of_lt h.2 (by decide))
  | tmpShortStore v =>
    exact short_eq (Int.le_trans (by decide) h.1) (Int.lt_of_le_of_lt h.2 (by decide))
  | read place => exact trivial
  | write place v =>
    exact short_eq (Int.le_trans (by decide) h.2.1) (Int.lt_of_le_of_lt h.2.2 (by decide))

def ErrorsOk (size : Nat) (err : Nat → Int) : Prop :=
  ∀ k < size, -125 ≤ err k ∧ err k ≤ 38

/-- What every step of a row keeps. -/
structure Bounded (size : Nat) (d : Diffuser) : Prop where
  log : ∀ e ∈ d.log, e.Ok size
  err : ErrorsOk size d.err
  tmpShortStore : -250 ≤ d.tmpShortStore ∧ d.tmpShortStore ≤ 77

section Bounds

variable {size : Nat} {d : Diffuser}

theorem Bounded.setTone (h : Bounded size d) {v : Int} (hlow : -250 ≤ v) (hhigh : v ≤ 332) :
    Bounded size (setTone v d) ∧ (setTone v d).tone = v := by
  have hok : (Event.tone v).Ok size := ⟨hlow, hhigh⟩
  have hfits : short v = v := hok.fits
  refine ⟨⟨?_, h.err, h.tmpShortStore⟩, hfits⟩
  intro e he
  rcases List.mem_cons.mp he with rfl | he
  · exact ⟨hlow, hhigh⟩
  · exact h.log e he

theorem Bounded.setBits (h : Bounded size d) (mask : UInt8) :
    Bounded size (setBits mask d) ∧ (setBits mask d).tone = d.tone := by
  obtain ⟨b1, b2, b3, heq⟩ := setBits_eq mask d
  rw [heq]
  exact ⟨⟨h.log, h.err, h.tmpShortStore⟩, rfl⟩

theorem Bounded.quantize (h : Bounded size d) (part : UInt8) {th : Int} (hlow : 5 ≤ th)
    (hhigh : th ≤ 78) (mask : UInt8) :
    Bounded size (quantize part th mask d) ∧
      -250 ≤ (quantize part th mask d).tone ∧ (quantize part th mask d).tone ≤ 77 := by
  obtain ⟨htmp, htmp'⟩ := h.tmpShortStore
  have hpart : part.toNat < 256 := part.toNat_lt
  unfold Diffuser.quantize
  by_cases hzero : d.tone ≠ 0
  · rw [if_pos hzero]
    dsimp only
    obtain ⟨hsum, htone⟩ := h.setTone (v := d.tmpShortStore + (part.toNat : Int)) (by lia)
      (by lia)
    generalize Diffuser.setTone (d.tmpShortStore + (part.toNat : Int)) d = e at hsum htone ⊢
    by_cases hth : e.tone ≥ th
    · -- the sum is at least the threshold: 255 comes off
      rw [if_pos hth]
      have hnext : Bounded size { e with level := e.level + 1 } :=
        ⟨hsum.log, hsum.err, hsum.tmpShortStore⟩
      obtain ⟨hred, hval⟩ := hnext.setTone (v := e.tone - 255) (by lia) (by lia)
      obtain ⟨hbits, heq⟩ := hred.setBits mask
      refine ⟨hbits, ?_, ?_⟩
      · rw [heq, hval]
        lia
      · rw [heq, hval]
        lia
    · -- below the threshold it is small already
      rw [if_neg hth]
      obtain ⟨hbits, heq⟩ := hsum.setBits mask
      rw [heq, htone]
      refine ⟨hbits, ?_, ?_⟩
      · lia
      · lia
  · rw [if_neg hzero]
    obtain ⟨hsame, htone⟩ := h.setTone (v := d.tmpShortStore) (by lia) (by lia)
    rw [htone]
    exact ⟨hsame, htmp, htmp'⟩

theorem Bounded.writeError (h : Bounded size d) {v : Int} (hlow : -125 ≤ v) (hhigh : v ≤ 38)
    (hptr : 0 ≤ d.diffusionErrorPtr) (hsize : d.diffusionErrorPtr < size) :
    Bounded size (writeError v d) := by
  have hok : (Event.write d.diffusionErrorPtr v).Ok size := ⟨⟨hptr, hsize⟩, hlow, hhigh⟩
  have hfits : short v = v := hok.fits
  refine ⟨?_, ?_, h.tmpShortStore⟩
  · intro e he
    rcases List.mem_cons.mp he with rfl | he
    · exact hok
    · exact h.log e he
  · intro k hk
    show -125 ≤ Function.update d.err d.diffusionErrorPtr.toNat (short v) k ∧
      Function.update d.err d.diffusionErrorPtr.toNat (short v) k ≤ 38
    by_cases hk' : k = d.diffusionErrorPtr.toNat
    · rw [hk', Function.update_self, hfits]
      exact ⟨hlow, hhigh⟩
    · rw [Function.update_of_ne hk']
      exact h.err k hk

theorem Bounded.carryError (h : Bounded size d) {v : Int} (hlow : -125 ≤ v) (hhigh : v ≤ 39)
    (hptr : 0 ≤ d.diffusionErrorPtr) (hsize : d.diffusionErrorPtr < size) :
    Bounded size (carryError v d) := by
  obtain ⟨herr, herr'⟩ := h.err d.diffusionErrorPtr.toNat (by lia)
  have hok : (Event.tmpShortStore (d.err d.diffusionErrorPtr.toNat + v)).Ok size := by
    constructor
    · lia
    · lia
  have hfits : short (d.err d.diffusionErrorPtr.toNat + v) = d.err d.diffusionErrorPtr.toNat + v :=
    hok.fits
  refine ⟨?_, h.err, ?_⟩
  · intro e he
    rcases List.mem_cons.mp he with rfl | he
    · exact hok
    rcases List.mem_cons.mp he with rfl | he
    · exact ⟨hptr, hsize⟩
    · exact h.log e he
  · show -250 ≤ short (d.err d.diffusionErrorPtr.toNat + v) ∧
      short (d.err d.diffusionErrorPtr.toNat + v) ≤ 77
    rw [hfits]
    exact hok

/-- **One pixel keeps the interval.** -/
theorem fed_bounded (h : Bounded size d) {dir : Int} (table input : Mem) {th : Int}
    (hlow : 5 ≤ th) (hhigh : th ≤ 78) (mask : UInt8) (hptr : 0 ≤ d.diffusionErrorPtr)
    (hsize : d.diffusionErrorPtr < size) (hptr' : 0 ≤ d.diffusionErrorPtr + dir)
    (hsize' : d.diffusionErrorPtr + dir < size) :
    Bounded size (fed dir table input th mask d) := by
  have hpixel : (input d.inputPtr.toNat).toNat < 256 := UInt8.toNat_lt _
  have hload : Bounded size (load dir table input d) := by
    have hmoved : Bounded size { d with
        inputPtr := d.inputPtr + dir
        level := table (4 * (input d.inputPtr.toNat).toNat) } :=
      ⟨h.log, h.err, h.tmpShortStore⟩
    exact (hmoved.setTone (by lia) (by lia)).1
  obtain ⟨hquant, htone, htone'⟩ := hload.quantize
    (table (4 * (input d.inputPtr.toNat).toNat + 1)) hlow hhigh mask
  obtain ⟨t, l, b1, b2, b3, log, heq⟩ := quantize_eq
    (table (4 * (input d.inputPtr.toNat).toNat + 1)) th mask (load dir table input d)
  have hhalf := half_eq t
  rw [fed]
  rw [heq] at hquant htone htone' ⊢
  dsimp only at htone htone'
  -- the tone goes into the log, its lower half down, its upper half on
  have hlog : Bounded size { load dir table input d with
      tone := t, level := l, rasterByte1 := b1, rasterByte2 := b2, rasterByte3 := b3,
      log := .diffused t :: log } := by
    refine ⟨?_, hquant.err, hquant.tmpShortStore⟩
    intro e he
    rcases List.mem_cons.mp he with rfl | he
    · exact ⟨htone, htone'⟩
    · exact hquant.log e he
  have hdown := hlog.writeError (v := half t) (by lia) (by lia) hptr hsize
  have hmoved : Bounded size { Diffuser.writeError (half t) { load dir table input d with
      tone := t, level := l, rasterByte1 := b1, rasterByte2 := b2, rasterByte3 := b3,
      log := .diffused t :: log } with
      diffusionErrorPtr := d.diffusionErrorPtr + dir } :=
    ⟨hdown.log, hdown.err, hdown.tmpShortStore⟩
  exact hmoved.carryError (v := t - half t) (by lia) (by lia) hptr' hsize'

theorem pixels_bounded {dir : Int} (table input : Mem) (masks : List UInt8)
    (h : Bounded size d) (hroom : ∀ k ≤ masks.length,
      0 ≤ d.diffusionErrorPtr + dir * k ∧ d.diffusionErrorPtr + dir * k < size) :
    Bounded size (pixels (fed dir table input) masks d) := by
  induction masks generalizing d with
  | nil => simpa only [pixels, List.foldl_nil] using h
  | cons mask masks ih =>
    rw [pixels_cons]
    obtain ⟨hlow, hhigh⟩ := hpRand_range (nextRandom d.holdRandom)
    have hdraw : Bounded size { d with holdRandom := nextRandom d.holdRandom } :=
      ⟨h.log, h.err, h.tmpShortStore⟩
    have hptr : { d with holdRandom := nextRandom d.holdRandom }.diffusionErrorPtr
        = d.diffusionErrorPtr := rfl
    rw [← hptr] at hroom
    generalize ({ d with holdRandom := nextRandom d.holdRandom } : Diffuser) = e at hdraw hroom
    have hhere := hroom 0 (Nat.zero_le _)
    have hthere := hroom 1 (Nat.succ_le_succ (Nat.zero_le _))
    rw [Int.natCast_zero, Int.mul_zero, Int.add_zero] at hhere
    rw [Int.natCast_one, Int.mul_one] at hthere
    refine ih (fed_bounded hdraw table input (by omega) (by omega) mask hhere.1 hhere.2
      hthere.1 hthere.2) fun k hk => ?_
    have hnext := hroom (k + 1) (Nat.succ_le_succ hk)
    rw [Int.natCast_succ, Int.mul_add, Int.mul_one, Int.add_comm (dir * _), ← Int.add_assoc]
      at hnext
    rwa [fed_cursor]

theorem Bounded.emit (h : Bounded size d) (dir : Int) (hifipe : Bool) :
    Bounded size (emit dir hifipe d) := by
  obtain ⟨-, -, -, -, htmp, herr, hlog⟩ := emit_frame dir hifipe d
  refine ⟨?_, ?_, ?_⟩
  · rw [hlog]
    exact h.log
  · rw [herr]
    exact h.err
  · rw [htmp]
    exact h.tmpShortStore

theorem clearError_bounded (dir : Int) (n : Nat) (h : Bounded size d) (hroom : ∀ k < n,
      0 ≤ d.diffusionErrorPtr + dir * k ∧ d.diffusionErrorPtr + dir * k < size) :
    Bounded size ((clearError dir)^[n] d) := by
  induction n generalizing d with
  | zero => exact h
  | succ n ih =>
    have hhere := hroom 0 (Nat.zero_lt_succ n)
    rw [Int.natCast_zero, Int.mul_zero, Int.add_zero] at hhere
    have hwrite := h.writeError (v := 0) (by decide) (by decide) hhere.1 hhere.2
    have hcleared : Bounded size (clearError dir d) :=
      ⟨hwrite.log, hwrite.err, hwrite.tmpShortStore⟩
    rw [Function.iterate_succ_apply]
    refine ih hcleared fun k hk => ?_
    have hnext := hroom (k + 1) (Nat.succ_lt_succ hk)
    rw [Int.natCast_succ, Int.mul_add, Int.mul_one, Int.add_comm (dir * _), ← Int.add_assoc]
      at hnext
    exact hnext

end Bounds

theorem group_bounded {p : DitherParms} {size g : Nat} {d : Diffuser} (hat : At p g d)
    (h : Bounded size d) (hg : 8 * (g + 1) ≤ numLoop p) (hsize : numLoop p + 2 ≤ size) :
    Bounded size (group p d) := by
  -- the pointer stays between the cell in front of the row and the one behind it
  have hroom : ∀ k : Nat, k ≤ 8 → 0 ≤ d.diffusionErrorPtr + dir p * k ∧
      d.diffusionErrorPtr + dir p * k < size := by
    intro k hk
    have hplace := place_add p (8 * g) k
    rw [hat.diffusionErrorPtr, Int.add_right_comm, ← hplace]
    unfold place
    split <;> constructor <;> lia
  unfold Diffuser.group
  dsimp only
  have hcount : Bounded size { d with pixelCount := short (d.pixelCount - 8) } :=
    ⟨h.log, h.err, h.tmpShortStore⟩
  split
  · rw [next8Pixels_eq]
    refine (pixels_bounded p.fFEDResPtr p.fInput (masks p) hcount fun k hk => ?_).emit _ _
    rw [masks_length] at hk
    exact hroom k hk
  · have hskip : Bounded size { d with
        pixelCount := short (d.pixelCount - 8)
        inputPtr := d.inputPtr + 8 * dir p
        rasterByte1 := 0
        rasterByte2 := 0 } := ⟨h.log, h.err, h.tmpShortStore⟩
    have hemit := hskip.emit (dir p) p.fHifipe
    have hclear := clearError_bounded (dir p) 8 hemit fun k hk => by
      rw [(emit_frame _ _ _).2.1]
      exact hroom k (Nat.le_of_lt hk)
    have hzero : (-250 : Int) ≤ 0 ∧ (0 : Int) ≤ 77 := by decide
    refine ⟨?_, hclear.err, hzero⟩
    intro e he
    rcases List.mem_cons.mp he with rfl | he
    · exact hzero
    · exact hclear.log e he

theorem hteDiffOpen_bounded (p : DitherParms) (r : UInt32) {size : Nat} (h8 : 8 ∣ numLoop p)
    (hsize : numLoop p + 2 ≤ size) (herr : ErrorsOk size p.fErr) :
    Returns (hteDiffOpen p r) (Bounded size) := by
  rw [hteDiffOpen_eq p r h8]
  refine Returns.pure ?_
  have hstart : Bounded size (start p r) := by
    have hplace : 0 ≤ (init p r).diffusionErrorPtr ∧ (init p r).diffusionErrorPtr < size := by
      rw [(init_cursor p r).2]
      unfold place
      split <;> constructor <;> lia
    have hzero : (-250 : Int) ≤ 0 ∧ (0 : Int) ≤ 77 := by decide
    have hinit : Bounded size (init p r) := by
      refine ⟨?_, herr, hzero⟩
      intro e he
      cases he
    exact (hinit.carryError (v := 0) (by decide) (by decide) hplace.1 hplace.2).writeError
      (v := 0) (by decide) (by decide) hplace.1 hplace.2
  have hall : ∀ g ≤ groups p, Bounded size ((group p)^[g] (start p r)) := by
    intro g hg
    induction g with
    | zero => exact hstart
    | succ g ih =>
      have hlt : numLoop p < 32768 := by
        by_contra hge
        rw [groups, if_neg hge] at hg
        exact Nat.not_succ_le_zero g hg
      have hcount : 8 * (g + 1) ≤ numLoop p := by
        rw [groups, if_pos hlt] at hg
        lia
      rw [Function.iterate_succ_apply']
      exact group_bounded (at_iterate hlt (Nat.le_of_succ_le hg)) (ih (Nat.le_of_succ_le hg))
        hcount hsize
  exact hall _ (Nat.le_refl _)

/-! ## Planes -/

namespace Config

variable (cfg : Config)

theorem adjustedInputWidth_dvd : 8 ∣ cfg.adjustedInputWidth := by
  unfold adjustedInputWidth
  split <;> lia

theorem outputWidth_dvd (i : Nat) : 8 ∣ cfg.outputWidth i := by
  unfold outputWidth
  split
  · exact Nat.dvd_mul_right_of_dvd (Nat.dvd_mul_right_of_dvd cfg.adjustedInputWidth_dvd _) _
  · exact Nat.dvd_zero 8

theorem le_outputWidth {i : Nat} (h : 0 < cfg.numRows i) :
    cfg.adjustedInputWidth ≤ cfg.outputWidth i := by
  have hactive : cfg.Active i := by
    by_contra hnot
    rw [numRows, if_neg hnot] at h
    exact Nat.lt_irrefl 0 h
  rw [outputWidth, if_pos hactive, Nat.mul_assoc]
  exact Nat.le_mul_of_pos_right _ (Nat.mul_pos h cfg.resBoost_pos)

end Config

variable {cfg : Config}

structure StateOk (cfg : Config) (s : State) : Prop where
  errBuff : ∀ i ∈ cfg.planes, ErrorsOk (cfg.outputWidth i + 2) (s.errBuff i)
  log : ∀ x ∈ s.log, x.2.Ok (cfg.outputWidth x.1 + 2)

theorem numLoop_ditherParms (i j numpix : Nat) (input : Mem) (s : State) :
    numLoop (ditherParms cfg i j numpix input s) = numpix % 65536 := rfl

theorem diffuseRow_ok {i numpix : Nat} {s : State} (hs : StateOk cfg s) (hi : i ∈ cfg.planes)
    (h8 : 8 ∣ numpix) (hwidth : numpix ≤ cfg.outputWidth i) (input : Mem) (j : Nat) :
    ∃ t, diffuseRow cfg i numpix input s j = .ok t ∧ StateOk cfg t := by
  have hloop : 8 ∣ numLoop (ditherParms cfg i j numpix input s) := by
    rw [numLoop_ditherParms]
    lia
  have hsize : numLoop (ditherParms cfg i j numpix input s) + 2 ≤ cfg.outputWidth i + 2 := by
    rw [numLoop_ditherParms]
    lia
  obtain ⟨d, hd, hbounded⟩ := hteDiffOpen_bounded (ditherParms cfg i j numpix input s)
    s.holdRandom hloop hsize (hs.errBuff i hi)
  refine ⟨store cfg i j d s, ?_, ?_, ?_⟩
  · rw [diffuseRow, hd]
  · intro i' hi'
    show ErrorsOk _ (Function.update s.errBuff i d.err i')
    by_cases hsame : i' = i
    · rw [hsame, Function.update_self]
      exact hbounded.err
    · rw [Function.update_of_ne hsame]
      exact hs.errBuff i' hi'
  · intro x hx
    rcases List.mem_append.mp hx with hx | hx
    · obtain ⟨e, he, rfl⟩ := List.mem_map.mp hx
      exact hbounded.log e he
    · exact hs.log x hx

theorem diffuseRows_ok {i numpix : Nat} {s : State} (hs : StateOk cfg s) (hi : i ∈ cfg.planes)
    (h8 : 8 ∣ numpix) (hwidth : 0 < cfg.numRows i → numpix ≤ cfg.outputWidth i) (input : Mem) :
    ∃ t, diffuseRows cfg i numpix input s = .ok t ∧ StateOk cfg t :=
  foldlM_ok (StateOk cfg) (fun _ j hj hs => diffuseRow_ok hs hi h8
    (hwidth (Nat.zero_lt_of_lt (List.mem_range.mp hj))) input j) hs

theorem diffusePlane_ok {i : Nat} {s : State} (hs : StateOk cfg s) (hi : i ∈ cfg.planes)
    (raster : Mem) : StateOk cfg (reached (diffusePlane cfg raster s i)) ∧
      ((cfg.outputWidth i > cfg.adjustedInputWidth → cfg.HasRoom i) →
        ∃ t, diffusePlane cfg raster s i = .ok t) := by
  unfold diffusePlane
  dsimp only
  by_cases hexpand : cfg.outputWidth i > cfg.adjustedInputWidth
  · rw [if_pos hexpand]
    by_cases hroom : cfg.HasRoom i
    · rw [if_pos hroom]
      obtain ⟨t, ht, htok⟩ := diffuseRows_ok (s := { s with
          tempBuffer := expand cfg i (fun x => raster (cfg.offset i + x))
            s.tempBuffer }) ⟨hs.errBuff, hs.log⟩ hi (cfg.outputWidth_dvd i)
        (fun _ => Nat.le_refl _) (expand cfg i
          (fun x => raster (cfg.offset i + x)) s.tempBuffer)
      rw [ht]
      exact ⟨htok, fun _ => ⟨t, rfl⟩⟩
    · rw [if_neg hroom]
      exact ⟨hs, fun h => absurd (h hexpand) hroom⟩
  · rw [if_neg hexpand]
    obtain ⟨t, ht, htok⟩ := diffuseRows_ok hs hi cfg.adjustedInputWidth_dvd
      (fun hpos => cfg.le_outputWidth hpos)
      (fun x => raster (cfg.offset i + x))
    rw [ht]
    exact ⟨htok, fun _ => ⟨t, rfl⟩⟩

/-! ## Runs -/

/-- Every expansion has its room. -/
def Config.Roomy (cfg : Config) : Prop :=
  ∀ i ∈ cfg.planes, cfg.outputWidth i > cfg.adjustedInputWidth → cfg.HasRoom i

theorem packBlack_frame (cfg : Config) (data : Mem) (size : Nat) (s : State) :
    (packBlack cfg data size s).2.errBuff = s.errBuff ∧
      (packBlack cfg data size s).2.colorPlane = s.colorPlane ∧
      (packBlack cfg data size s).2.log = s.log := by
  unfold packBlack
  split
  · exact ⟨rfl, rfl, rfl⟩
  · exact ⟨rfl, rfl, rfl⟩

theorem processBlack_ok {s : State} (hs : StateOk cfg s) (black : Option Mem) (size : Nat) :
    StateOk cfg (processBlack cfg black size s) := by
  cases black with
  | none => exact hs
  | some data =>
    obtain ⟨herr, -, hlog⟩ := packBlack_frame cfg data size s
    constructor
    · show ∀ i ∈ cfg.planes, ErrorsOk _ ((packBlack cfg data size s).2.errBuff i)
      rw [herr]
      exact hs.errBuff
    · show ∀ x ∈ (packBlack cfg data size s).2.log, x.2.Ok _
      rw [hlog]
      exact hs.log

theorem restart_ok {s : State} (hlog : ∀ x ∈ s.log, x.2.Ok (cfg.outputWidth x.1 + 2)) :
    StateOk cfg (restart cfg s) := by
  refine ⟨?_, hlog⟩
  intro i hi k hk
  have hzero : (restart cfg s).errBuff i k = 0 := by
    show (if i ∈ cfg.planes then blit (s.errBuff i) 0 (fun _ => 0) (cfg.outputWidth i + 2)
      else s.errBuff i) k = 0
    rw [if_pos hi]
    have hcell := blit_add (s.errBuff i) 0 (fun _ => (0 : Int)) hk
    rwa [Nat.zero_add] at hcell
  rw [hzero]
  constructor
  · decide
  · decide

theorem processColor_ok {s : State} (hs : StateOk cfg s) (color : Option Mem) :
    StateOk cfg (reached (processColor cfg color s)) ∧
      (cfg.Roomy → ∃ t, processColor cfg color s = .ok t) := by
  cases color with
  | none => exact ⟨hs, fun _ => ⟨s, rfl⟩⟩
  | some raster =>
    have hnext : StateOk cfg (nextRaster s) := ⟨hs.errBuff, hs.log⟩
    constructor
    · exact reached_foldlM (StateOk cfg) (fun s i hi hs => (diffusePlane_ok hs hi raster).1) hnext
    · intro hroomy
      have hgoes : ∀ s, ∀ i ∈ cfg.planes, StateOk cfg s →
          ∃ t, diffusePlane cfg raster s i = .ok t ∧ StateOk cfg t := by
        intro s i hi hs
        obtain ⟨hkept, hgo⟩ := diffusePlane_ok hs hi raster
        obtain ⟨t, ht⟩ := hgo (hroomy i hi)
        rw [ht] at hkept
        exact ⟨t, ht, hkept⟩
      obtain ⟨t, ht, -⟩ := foldlM_ok (StateOk cfg) hgoes hnext
      exact ⟨t, ht⟩

theorem process_ok {s : State} (hs : StateOk cfg s) (input : Option RasterData) :
    StateOk cfg (reached ((process cfg s input).map Prod.fst)) ∧
      (cfg.Roomy → ∃ t, process cfg s input = .ok t) := by
  cases input with
  | none => exact ⟨restart_ok hs.log, fun _ => ⟨_, rfl⟩⟩
  | some raster =>
    unfold process
    dsimp only
    by_cases hnull : raster.rasterdata .color = none ∧ raster.rasterdata .black = none
    · rw [if_pos hnull]
      exact ⟨restart_ok hs.log, fun _ => ⟨_, rfl⟩⟩
    rw [if_neg hnull]
    have hcleared : StateOk cfg (clearPlanes cfg
        { s with started := true, blackData := raster.rasterdata .black }) :=
      ⟨hs.errBuff, hs.log⟩
    obtain ⟨hkept, hgoes⟩ := processColor_ok hcleared (raster.rasterdata .color)
    cases hdone : processColor cfg (raster.rasterdata .color) (clearPlanes cfg
        { s with started := true, blackData := raster.rasterdata .black }) with
    | error t =>
      rw [hdone] at hkept hgoes
      refine ⟨hkept, fun hroomy => ?_⟩
      obtain ⟨t', ht'⟩ := hgoes hroomy
      cases ht'
    | ok t =>
      rw [hdone] at hkept
      have hblack := processBlack_ok hkept (raster.rasterdata .black) (raster.rastersize .black)
      exact ⟨⟨hblack.errBuff, hblack.log⟩, fun _ => ⟨_, rfl⟩⟩

theorem exec_ok {s : State} (hs : StateOk cfg s) (c : Call) :
    StateOk cfg (reached (exec cfg s c)) ∧ (cfg.Roomy → ∃ t, exec cfg s c = .ok t) := by
  cases c with
  | process input =>
    obtain ⟨hkept, hgoes⟩ := process_ok hs input
    refine ⟨hkept, fun hroomy => ?_⟩
    obtain ⟨t, ht⟩ := hgoes hroomy
    rw [exec, ht]
    exact ⟨t.1, rfl⟩
  | flush =>
    refine ⟨?_, fun _ => ⟨_, rfl⟩⟩
    show StateOk cfg (flush cfg s)
    unfold flush
    split
    · exact hs
    · exact restart_ok hs.log
  | restart => exact ⟨restart_ok hs.log, fun _ => ⟨_, rfl⟩⟩

/-- **The error stays small, in every run**: whatever the tables, the widths, the
rasters and the order of calls, every store fits, and every access stays inside the
plane's buffer. Runs go on as long as no input has to be expanded without room. -/
theorem run_bounded (cfg : Config) (heap : State) (calls : List Call) :
    (∀ x ∈ (reached (run cfg (new cfg heap) calls)).log,
      x.2.Ok (cfg.outputWidth x.1 + 2) ∧ x.2.Fits) ∧
    (cfg.Roomy → ∃ s, run cfg (new cfg heap) calls = .ok s) := by
  have hnew : StateOk cfg (new cfg heap) := restart_ok fun x hx => absurd hx List.not_mem_nil
  constructor
  · have hkept : StateOk cfg (reached (run cfg (new cfg heap) calls)) :=
      reached_foldlM (StateOk cfg) (fun s c _ hs => (exec_ok hs c).1) hnew
    exact fun x hx => ⟨hkept.log x hx, (hkept.log x hx).fits⟩
  · intro hroomy
    have hgoes : ∀ s, ∀ c ∈ calls, StateOk cfg s → ∃ t, exec cfg s c = .ok t ∧ StateOk cfg t := by
      intro s c _ hs
      obtain ⟨hkept, hgo⟩ := exec_ok hs c
      obtain ⟨t, ht⟩ := hgo hroomy
      rw [ht] at hkept
      exact ⟨t, ht, hkept⟩
    obtain ⟨t, ht, -⟩ := foldlM_ok (StateOk cfg) hgoes hnew
    exact ⟨t, ht⟩

/-- Eight black pixels, diffused twice. -/
theorem run_bounded_black :
    let raster := RasterData.only .color (fun _ => 255) 8
    ∃ s, run (.plain 1 8) (new (.plain 1 8) .zero) [.process raster, .flush, .process raster]
      = .ok s :=
  (run_bounded (.plain 1 8) .zero _).2 (by unfold Config.Roomy; decide)

/-- Before it is thresholded, the tone is the input. -/
theorem tone_not_bounded :
    ¬ ∀ x ∈ (reached (run (.plain 1 8) (new (.plain 1 8) .zero)
        [.process (some (.only .color (fun _ => 255) 8))])).log,
      ∀ v, x.2 = .tone v → -250 ≤ v ∧ v ≤ 77 := by
  intro h
  have hmem : (0, Event.tone 255) ∈ (reached (run (.plain 1 8) (new (.plain 1 8) .zero)
      [.process (some (.only .color (fun _ => 255) 8))])).log := by
    decide +kernel
  exact absurd (h _ hmem 255 rfl).2 (by decide)

end Hplip.Hpcups.Halftoner
