import Hplip.Pcard.FatDelete

/-!
# Deleting a file of a card that refuses writes

The writes of a call are numbered, and the card may refuse any of them; `malloc` may have no
block for the table that `UpdateFat` narrows.
-/

namespace Hplip.Pcard

open Loop

abbrev Writes := Nat → Bool

structure Card where
  disk : Disk
  asked : Nat

/-- `WriteSector`: a write that is refused leaves the card as it is. -/
def Card.write (takes : Writes) (c : Card) (sector : Int) (nsector : Nat) (buf : Bytes) :
    Bool × Card :=
  if takes c.asked then (true, ⟨writeSector c.disk sector nsector buf, c.asked + 1⟩)
  else (false, ⟨c.disk, c.asked + 1⟩)

/-- The loop of `writesect`, which ends at the first write that fails. -/
def writeBlocksOn (takes : Writes) (sector : Int) (buf : Bytes) : Nat → Nat → Nat → Card → Bool × Card
  | 0, _, _, c => (true, c)
  | fuel + 1, i, len, c =>
    if len = 0 then (true, c)
    else
      let n := min len blkSize
      match c.write takes (sector + i) n fun k => buf (i * hardSect + k) with
      | (true, c) => writeBlocksOn takes sector buf fuel (i + n) (len - n) c
      | (false, c) => (false, c)

/-- `writesect`; the flag says that it returned 0. -/
def writesectOn (takes : Writes) (c : Card) (sector : Int) (nsector : Nat) (buf : Bytes) :
    Bool × Card :=
  writeBlocksOn takes sector buf nsector 0 nsector c

/-- The loop of `UpdateFat` over the sectors that it writes. -/
def writeTable (takes : Writes) (start : Int) (p : Bytes) : List Nat → Card → Bool × Card
  | [], c => (true, c)
  | i :: is, c =>
    match writesectOn takes c (start + i) 1 fun k => p (i * hardSect + k) with
    | (true, c) => writeTable takes start p is c
    | (false, c) => (false, c)

/-- `UpdateFat`, after `asked` writes; `fresh` is what `malloc` gives a FAT12 table, if it gives
anything. -/
def updateFatOn (takes : Writes) (fresh : Option Bytes) (st : State) (asked : Nat) :
    Bool × State :=
  if st.bpb.IsFat12 ∧ fresh = none then (false, st)
  else
    let fresh := fresh.getD fun _ => 0
    match writeTable takes st.da.fatStartSector (updated fresh st).1 (writtenSectors fresh st)
      ⟨st.disk, asked⟩ with
    | (ok, c) => (ok, { st with disk := c.disk })

/-- `FatDeleteFile`; the flag says that it returned 0. -/
def fatDeleteFileOn (takes : Writes) (dummy : Bytes) (fresh : Option Bytes) (fuel : Nat)
    (name : List UInt8) (st : State) : Option (Bool × State) := do
  let (found, st) ← loadFileWithName dummy name fuel st 0
  if ¬ found then some (false, st)
  else
    match ← freeClusters st.da.entries st.fa.startCluster st.da.fat with
    | none => none
    | some fat =>
      let st := { st with da := { st.da with fat := fat } }
      let buf := readsect st.disk st.fa.dirSectorNum 1 dummy
      let buf := Function.update buf (32 * (st.fa.dirEntryNum % 16)) 0xe5
      match writesectOn takes ⟨st.disk, 0⟩ st.fa.dirSectorNum 1 buf with
      | (true, c) => some (updateFatOn takes fresh { st with disk := c.disk } c.asked)
      | (false, c) => some (false, { st with disk := c.disk })

/-! ## Single sectors -/

theorem writesectOn_one (takes : Writes) (c : Card) (sector : Int) (buf : Bytes) :
    writesectOn takes c sector 1 buf =
      if takes c.asked then (true, ⟨writesect c.disk sector 1 buf, c.asked + 1⟩)
      else (false, ⟨c.disk, c.asked + 1⟩) := by
  have hone : min 1 blkSize = 1 := by decide
  have hwrite : writesect c.disk sector 1 buf = writeSector c.disk sector 1 buf := by
    simp [writesect, writeBlocks, blkSize]
  have hbuf : (fun k => buf (0 * hardSect + k)) = buf := by simp
  have hsector : sector + ((0 : Nat) : Int) = sector := by omega
  rw [hwrite, writesectOn, writeBlocksOn, if_neg Nat.one_ne_zero, hone, hbuf, hsector]
  simp only [Card.write]
  by_cases htakes : takes c.asked
  · rw [if_pos htakes]
    rfl
  · rw [if_neg htakes]

theorem writeTable_ok_iff {takes : Writes} {start : Int} {p : Bytes} {is : List Nat} {c : Card} :
    (writeTable takes start p is c).1 = true ↔ ∀ k < is.length, takes (c.asked + k) = true := by
  induction is generalizing c with
  | nil => exact iff_of_true rfl fun k hk => absurd hk (Nat.not_lt_zero k)
  | cons i is ih =>
    rw [writeTable, writesectOn_one]
    by_cases htakes : takes c.asked
    · rw [if_pos htakes]
      dsimp only
      rw [ih]
      constructor
      · rintro h (_ | k) hk
        · exact htakes
        · have hnext := h k (by rw [List.length_cons] at hk; omega)
          rwa [Nat.add_assoc, Nat.add_comm 1 k] at hnext
      · intro h k hk
        have hnext := h (k + 1) (by rw [List.length_cons]; omega)
        rwa [Nat.add_comm k 1, ← Nat.add_assoc] at hnext
    · rw [if_neg htakes]
      refine iff_of_false Bool.false_ne_true fun h => htakes ?_
      exact h 0 (by rw [List.length_cons]; omega)

theorem writeTable_all {start : Int} {p : Bytes} {is : List Nat} {c : Card} :
    ∃ asked, writeTable (fun _ => true) start p is c = (true, ⟨is.foldl (fun disk (i : Nat) =>
      writesect disk (start + i) 1 fun k => p (i * hardSect + k)) c.disk, asked⟩) := by
  induction is generalizing c with
  | nil => exact ⟨c.asked, rfl⟩
  | cons i is ih =>
    rw [writeTable, writesectOn_one, if_pos rfl]
    exact ih

theorem updateFatOn_all (fresh : Bytes) (st : State) (asked : Nat) :
    updateFatOn (fun _ => true) (some fresh) st asked = (true, updateFat fresh st) := by
  rw [updateFatOn, if_neg fun h => Option.some_ne_none fresh h.2]
  obtain ⟨n, hn⟩ := @writeTable_all st.da.fatStartSector (updated fresh st).1
    (writtenSectors fresh st) ⟨st.disk, asked⟩
  dsimp only [Option.getD_some]
  rw [hn]
  rfl

theorem fatDeleteFileOn_all (dummy fresh : Bytes) (fuel : Nat) (name : List UInt8) (st : State) :
    fatDeleteFileOn (fun _ => true) dummy (some fresh) fuel name st
      = fatDeleteFile dummy fresh fuel name st := by
  unfold fatDeleteFileOn fatDeleteFile
  rcases loadFileWithName dummy name fuel st 0 with _ | ⟨found, file⟩
  · rfl
  cases found with
  | false => rfl
  | true =>
    show (freeClusters _ _ _).bind _ = (freeClusters _ _ _).bind _
    rcases freeClusters file.da.entries file.fa.startCluster file.da.fat with _ | _ | fat
    · rfl
    · rfl
    · simp only [Option.bind_some, writesectOn_one, if_true, updateFatOn_all]

/-! ## When the walk leaves the table alone -/

/-- Nothing of the table is freed: the file has no cluster, or its first entry is free. -/
def NothingToFree (cluster : Nat) (fat : Nat → UInt16) : Prop :=
  cluster = 0 ∨ 0xFFF8 < cluster ∨ fat cluster = 0

theorem freeClusters_same_iff {entries cluster : Nat} {fat fat' : Nat → UInt16}
    (h : freeClusters entries cluster fat = some (some fat')) :
    fat' = fat ↔ NothingToFree cluster fat := by
  rw [freeClusters, loop, freeStep] at h
  by_cases hgo : cluster ≤ 0xFFF8 ∧ cluster ≠ 0
  · rw [if_pos hgo] at h
    by_cases hin : cluster < entries
    · rw [if_pos hin] at h
      have hrest : loop (freeStep entries) (entries + 1)
          ((fat cluster).toNat, Function.update fat cluster 0) = some (some fat') := h
      have hfreed : fat' cluster = 0 := loop_keeps_free hrest (Function.update_self ..)
      constructor
      · intro hsame
        rw [hsame] at hfreed
        exact .inr (.inr hfreed)
      · rintro (hzero | habove | hfree)
        · exact absurd hzero hgo.2
        · exact absurd hgo.1 (Nat.not_le_of_gt habove)
        · have hsame : Function.update fat cluster 0 = fat := by
            rw [← hfree, Function.update_eq_self]
          rw [hfree, hsame, loop, freeStep, if_neg fun hzero => hzero.2 rfl] at hrest
          exact (Option.some.inj (Option.some.inj hrest)).symm
    · rw [if_neg hin] at h
      exact absurd h (by simp)
  · rw [if_neg hgo] at h
    have hsame : fat = fat' := Option.some.inj (Option.some.inj h)
    refine iff_of_true hsame.symm ?_
    rw [not_and_or, not_not] at hgo
    rcases hgo with habove | hzero
    · exact .inr (.inl (Nat.lt_of_not_le habove))
    · exact .inl hzero

/-! ## When a call that fails keeps the table -/

/-- The card takes the write of the entry and those of the table `fat`, and there is memory
for them. -/
def WritesTaken (takes : Writes) (dummy : Bytes) (fresh : Option Bytes) (file : State)
    (fat : Nat → UInt16) : Prop :=
  takes 0 = true ∧ ¬ (file.bpb.IsFat12 ∧ fresh = none) ∧
    ∀ k < (writtenSectors (fresh.getD fun _ => 0) (marked dummy file fat)).length,
      takes (1 + k) = true

theorem fatDeleteFileOn_found {takes : Writes} {dummy : Bytes} {fresh : Option Bytes} {fuel : Nat}
    {name : List UInt8} {st file st' : State} {deleted : Bool}
    (hfound : loadFileWithName dummy name fuel st 0 = some (true, file))
    (hcall : fatDeleteFileOn takes dummy fresh fuel name st = some (deleted, st')) :
    ∃ fat, freeClusters file.da.entries file.fa.startCluster file.da.fat = some (some fat) ∧
      st'.da.fat = fat ∧ (deleted = true ↔ WritesTaken takes dummy fresh file fat) := by
  unfold fatDeleteFileOn at hcall
  rw [hfound] at hcall
  have hwalked : (freeClusters file.da.entries file.fa.startCluster file.da.fat).bind _
      = some (deleted, st') := hcall
  obtain ⟨walked, hwalk, hrest⟩ := Option.bind_eq_some_iff.mp hwalked
  cases walked with
  | none => exact absurd hrest (by simp)
  | some fat =>
    refine ⟨fat, hwalk, ?_⟩
    dsimp only at hrest
    rw [writesectOn_one] at hrest
    by_cases hentry : takes 0
    · rw [if_pos hentry] at hrest
      have hupdate : updateFatOn takes fresh (marked dummy file fat) 1 = (deleted, st') :=
        Option.some.inj hrest
      rw [updateFatOn] at hupdate
      by_cases hmem : (marked dummy file fat).bpb.IsFat12 ∧ fresh = none
      · rw [if_pos hmem] at hupdate
        obtain ⟨rfl, rfl⟩ := Prod.mk.inj hupdate
        exact ⟨rfl, iff_of_false Bool.false_ne_true fun h => h.2.1 hmem⟩
      · rw [if_neg hmem] at hupdate
        obtain ⟨hok, rfl⟩ := Prod.mk.inj hupdate
        refine ⟨rfl, ?_⟩
        rw [← hok, writeTable_ok_iff]
        exact ⟨fun h => ⟨hentry, hmem, h⟩, fun h => h.2.2⟩
    · rw [if_neg hentry] at hrest
      obtain ⟨rfl, rfl⟩ := Prod.mk.inj (Option.some.inj hrest)
      exact ⟨rfl, iff_of_false Bool.false_ne_true fun h => hentry h.1⟩

theorem fatDeleteFileOn_refused {takes : Writes} {dummy : Bytes} {fresh : Option Bytes}
    {fuel : Nat} {name : List UInt8} {st file : State} {fat : Nat → UInt16}
    (htakes : takes 0 = false)
    (hfound : loadFileWithName dummy name fuel st 0 = some (true, file))
    (hwalk : freeClusters file.da.entries file.fa.startCluster file.da.fat = some (some fat)) :
    fatDeleteFileOn takes dummy fresh fuel name st
      = some (false, { file with da := { file.da with fat := fat } }) := by
  unfold fatDeleteFileOn
  rw [hfound]
  show (freeClusters _ _ _).bind _ = _
  rw [hwalk]
  simp only [Option.bind_some, writesectOn_one, htakes]
  rfl

/-- The state of a card and a call after which the table is as it was, unless the file was
deleted: there is no such file, or nothing of it to free, or no write fails. -/
def KeepsTable (takes : Writes) (dummy : Bytes) (fresh : Option Bytes) (found : Bool)
    (file : State) : Prop :=
  found = false ∨ NothingToFree file.fa.startCluster file.da.fat ∨
    ∃ fat, freeClusters file.da.entries file.fa.startCluster file.da.fat = some (some fat) ∧
      WritesTaken takes dummy fresh file fat

/-- **A call that fails keeps the table** if and only if no file has the name, the walk has
nothing to free, or no write fails. -/
theorem fatDeleteFileOn_keeps_iff {takes : Writes} {dummy : Bytes} {fresh : Option Bytes}
    {fuel : Nat} {name : List UInt8} {st file st' : State} {found deleted : Bool}
    (hload : loadFileWithName dummy name fuel st 0 = some (found, file))
    (hcall : fatDeleteFileOn takes dummy fresh fuel name st = some (deleted, st')) :
    (deleted = false → st'.da.fat = st.da.fat) ↔ KeepsTable takes dummy fresh found file := by
  obtain ⟨-, -, hda⟩ := loadFileWithName_keeps hload
  cases found with
  | false =>
    unfold fatDeleteFileOn at hcall
    rw [hload] at hcall
    obtain ⟨-, rfl⟩ := Prod.mk.inj (Option.some.inj hcall)
    exact iff_of_true (fun _ => by rw [hda]) (.inl rfl)
  | true =>
    obtain ⟨fat, hwalk, hfat, htaken⟩ := fatDeleteFileOn_found hload hcall
    have hsame := freeClusters_same_iff hwalk
    rw [hfat, ← hda]
    constructor
    · intro h
      cases deleted with
      | false => exact .inr (.inl (hsame.mp (h rfl)))
      | true => exact .inr (.inr ⟨fat, hwalk, htaken.mp rfl⟩)
    · rintro (hnone | hnothing | ⟨fat', hwalk', htaken'⟩) hfailed
      · exact absurd hnone (by decide)
      · exact hsame.mpr hnothing
      · rw [hwalk] at hwalk'
        obtain rfl := Option.some.inj (Option.some.inj hwalk')
        rw [htaken.mpr htaken'] at hfailed
        exact absurd hfailed (by decide)

theorem oneFile_walk :
    freeClusters (oneFileFound false).da.entries (oneFileFound false).fa.startCluster
      (oneFileFound false).da.fat = some (some (freed [2] (oneFileFound false).da.fat)) := by
  rcases oneFile_chain false with ⟨hzero, -⟩ | ⟨-, hchain⟩
  · exact absurd hzero (by decide)
  · obtain ⟨k, hk⟩ := freeClusters_chain hchain
    exact hk.trans (loop_of_stops (by decide) (.inl (by decide)))

def oneFileRefused : State :=
  { oneFileFound false with
    da := { (oneFileFound false).da with fat := freed [2] (oneFileFound false).da.fat } }

theorem oneFile_refused :
    fatDeleteFileOn (fun _ => false) (fun _ => 0) (some fun _ => 0) 2 [0x41] (oneFile false)
      = some (false, oneFileRefused) :=
  fatDeleteFileOn_refused rfl (oneFile_found false) oneFile_walk

theorem fatDeleteFileOn_keeps_iff_refused :
    (false = false → oneFileRefused.da.fat = (oneFile false).da.fat) ↔
      KeepsTable (fun _ => false) (fun _ => 0) (some fun _ => 0) true (oneFileFound false) :=
  fatDeleteFileOn_keeps_iff (oneFile_found false) oneFile_refused

/-- The call has failed, and the cluster of the file is free in the table that is kept. -/
theorem refused_delete_frees :
    oneFileInit false = some (oneFile false) ∧
      fatDeleteFileOn (fun _ => false) (fun _ => 0) (some fun _ => 0) 2 [0x41] (oneFile false)
        = some (false, oneFileRefused) ∧
      oneFileRefused.da.fat ≠ (oneFile false).da.fat := by
  refine ⟨oneFile_init false, oneFile_refused, fun hsame => ?_⟩
  have hcluster := congrFun hsame 2
  have hfree : oneFileRefused.da.fat 2 = 0 := by
    show (if 2 ∈ [2] then 0 else (oneFileFound false).da.fat 2) = 0
    exact if_pos List.mem_cons_self
  rw [hfree] at hcluster
  revert hcluster
  decide +kernel

end Hplip.Pcard
