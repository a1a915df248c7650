import Hplip.Lib.Chain
import Hplip.Pcard.FatTable
import Mathlib.Data.Finset.Card

/-!
# Deleting a file of a FAT volume

`FatDeleteFile` walks the chain of the file and frees each entry on the way, up to the
first value that is zero or above 0xFFF8, for either table. The markers of a FAT12 table
are not above that value, and neither is the first one of a FAT16 table.
-/

namespace Hplip.Pcard

open Loop

/-! ## The walk ends -/

def inUse (entries : Nat) (fat : Nat → UInt16) : Finset Nat :=
  (Finset.range entries).filter fun c => fat c ≠ 0

/-- `fat'` is `fat₀` with some entries of the table freed. -/
def OnlyFreed (entries : Nat) (fat₀ fat' : Nat → UInt16) : Prop :=
  ∀ i, fat' i = fat₀ i ∨ (i < entries ∧ fat' i = 0)

theorem OnlyFreed.update {entries c : Nat} {fat₀ fat : Nat → UInt16}
    (h : OnlyFreed entries fat₀ fat) (hc : c < entries) :
    OnlyFreed entries fat₀ (Function.update fat c 0) := by
  intro i
  rcases eq_or_ne i c with rfl | hne
  · exact .inr ⟨hc, Function.update_self ..⟩
  · rw [Function.update_of_ne hne]
    exact h i

/-- A round frees an entry in use, or it is the last but one. -/
theorem freeStep_spec {entries : Nat} {fat₀ : Nat → UInt16} (s : Nat × (Nat → UInt16))
    (hfreed : OnlyFreed entries fat₀ s.2) :
    Returns (freeStep entries s) fun r =>
      Sum.elim (fun s' => OnlyFreed entries fat₀ s'.2 ∧
        (inUse entries s'.2).card + (if s'.1 = 0 then 0 else 1)
          < (inUse entries s.2).card + (if s.1 = 0 then 0 else 1))
        (fun fat' => ∀ f ∈ fat', OnlyFreed entries fat₀ f) r := by
  obtain ⟨c, fat⟩ := s
  unfold freeStep
  refine Returns.ite (fun hgo => ?_) fun _ => Returns.pure ?_
  swap
  · rintro _ ⟨⟩
    exact hfreed
  refine Returns.ite (fun hin => ?_) fun _ => Returns.pure (by rintro _ ⟨⟩)
  refine Returns.pure ⟨hfreed.update hin, ?_⟩
  have hsub : inUse entries (Function.update fat c 0) ⊆ inUse entries fat := by
    intro i hi
    obtain ⟨hrange, hused⟩ := Finset.mem_filter.mp hi
    refine Finset.mem_filter.mpr ⟨hrange, fun hzero => hused ?_⟩
    rcases eq_or_ne i c with rfl | hne
    · exact Function.update_self ..
    · rw [Function.update_of_ne hne, hzero]
  rw [if_neg hgo.2]
  by_cases hfree : fat c = 0
  · have hcard := Finset.card_le_card hsub
    show (inUse entries (Function.update fat c 0)).card + (if (fat c).toNat = 0 then 0 else 1)
      < (inUse entries fat).card + 1
    rw [hfree, UInt16.toNat_zero, if_pos rfl]
    omega
  · have hcard : (inUse entries (Function.update fat c 0)).card < (inUse entries fat).card := by
      refine Finset.card_lt_card (Finset.ssubset_iff_of_subset hsub |>.mpr ⟨c, ?_, ?_⟩)
      · exact Finset.mem_filter.mpr ⟨Finset.mem_range.mpr hin, hfree⟩
      · intro hc
        exact (Finset.mem_filter.mp hc).2 (Function.update_self ..)
    show (inUse entries (Function.update fat c 0)).card + (if (fat c).toNat = 0 then 0 else 1)
      < (inUse entries fat).card + 1
    split <;> omega

def IsCluster (fat12 : Prop) [Decidable fat12] (entries c : Nat) : Prop :=
  2 ≤ c ∧ c < entries ∧ c < (if fat12 then 0xFF8 else 0xFFF8)

def IsEnd (fat12 : Prop) [Decidable fat12] (m : Nat) : Prop :=
  if fat12 then 0xFF8 ≤ m ∧ m ≤ 0xFFF else 0xFFF8 ≤ m ∧ m ≤ 0xFFFF

instance (fat12 : Prop) [Decidable fat12] (entries c : Nat) :
    Decidable (IsCluster fat12 entries c) := by
  unfold IsCluster
  infer_instance

instance (fat12 : Prop) [Decidable fat12] (m : Nat) : Decidable (IsEnd fat12 m) := by
  unfold IsEnd
  infer_instance

abbrev ClusterChain (fat12 : Prop) [Decidable fat12] (entries : Nat) (fat : Nat → UInt16) :
    Nat → List Nat → Nat → Prop :=
  Chain (fun c => (fat c).toNat) (IsCluster fat12 entries) (IsEnd fat12)

section Walk

variable {fat12 : Prop} [Decidable fat12] {entries c m : Nat} {cs : List Nat}
  {fat : Nat → UInt16}

theorem not_isEnd_of_isCluster (c : Nat) (h : IsCluster fat12 entries c) : ¬ IsEnd fat12 c := by
  obtain ⟨-, -, hlt⟩ := h
  unfold IsEnd
  by_cases hfat : fat12
  · simp only [hfat, if_true] at hlt ⊢
    omega
  · simp only [hfat, if_false] at hlt ⊢
    omega

def freed (cs : List Nat) (fat : Nat → UInt16) : Nat → UInt16 := fun i =>
  if i ∈ cs then 0 else fat i

theorem freed_cons (h : c ∉ cs) : freed cs (Function.update fat c 0) = freed (c :: cs) fat := by
  funext i
  unfold freed
  rcases eq_or_ne i c with rfl | hne
  · rw [if_neg h, if_pos List.mem_cons_self, Function.update_self]
  · simp only [List.mem_cons, hne, false_or, Function.update_of_ne hne]

theorem freeStep_cluster (h : IsCluster fat12 entries c) :
    freeStep entries (c, fat) = some (.inl ((fat c).toNat, Function.update fat c 0)) := by
  obtain ⟨hpos, hin, hlt⟩ := h
  have hgo : c ≤ 0xFFF8 ∧ c ≠ 0 := by
    constructor
    · by_cases hfat : fat12
      · rw [if_pos hfat] at hlt
        omega
      · rw [if_neg hfat] at hlt
        omega
    · omega
  unfold freeStep
  rw [if_pos hgo, if_pos hin]

/-- **The walk frees the chain**, and is then at the end marker. -/
theorem loop_chain (h : ClusterChain fat12 entries fat c cs m) (k : Nat) :
    loop (freeStep entries) (cs.length + k) (c, fat)
      = loop (freeStep entries) k (m, freed cs fat) := by
  induction cs generalizing c fat with
  | nil =>
    cases h with
    | nil _ =>
      have hnone : freed [] fat = fat := funext fun i => if_neg List.not_mem_nil
      rw [hnone, List.length_nil, Nat.zero_add]
  | cons a cs ih =>
    have hnodup := h.nodup not_isEnd_of_isCluster
    obtain ⟨hnew, -⟩ := List.nodup_cons.mp hnodup
    cases h with
    | cons hcluster hrest =>
      have hrest' : ClusterChain fat12 entries (Function.update fat a 0) (fat a).toNat cs m := by
        refine hrest.congr fun b hb => ?_
        have hne : b ≠ a := fun hba => hnew (hba ▸ hb)
        show (Function.update fat a 0 b).toNat = _
        rw [Function.update_of_ne hne]
      have hgo : loop (freeStep entries) (cs.length + k + 1) (a, fat)
          = loop (freeStep entries) (cs.length + k)
            ((fat a).toNat, Function.update fat a 0) := by
        rw [loop, freeStep_cluster hcluster]
        rfl
      rw [List.length_cons, Nat.add_right_comm, hgo, ih hrest', freed_cons hnew]

theorem chain_length_le (h : ClusterChain fat12 entries fat c cs m) : cs.length ≤ entries := by
  have hsub : cs ⊆ List.range entries := fun b hb => List.mem_range.mpr (h.link b hb).2.1
  have hperm := (h.nodup not_isEnd_of_isCluster).subperm hsub
  simpa using hperm.length_le

/-- **The walk frees the chain**, and then goes on from the end marker. -/
theorem freeClusters_chain (h : ClusterChain fat12 entries fat c cs m) :
    ∃ k, freeClusters entries c fat = loop (freeStep entries) (k + 2) (m, freed cs fat) := by
  obtain ⟨k, hk⟩ := Nat.exists_eq_add_of_le (chain_length_le h)
  refine ⟨k, ?_⟩
  have hfuel : entries + 2 = cs.length + (k + 2) := by lia
  unfold freeClusters
  rw [hfuel, loop_chain h]

theorem loop_keeps_free {i : Nat} {fat' : Nat → UInt16} {fuel : Nat}
    (h : loop (freeStep entries) fuel (c, fat) = some (some fat')) (hi : fat i = 0) :
    fat' i = 0 := by
  induction fuel generalizing c fat with
  | zero => exact absurd h (by simp [loop])
  | succ fuel ih =>
    rw [loop, freeStep] at h
    split at h
    · split at h
      · refine ih h ?_
        show Function.update fat c 0 i = 0
        rcases eq_or_ne i c with rfl | hne
        · exact Function.update_self ..
        · rw [Function.update_of_ne hne, hi]
      · exact absurd h (by simp)
    · simp only [Option.bind_eq_bind, Option.bind_some, Option.some.injEq] at h
      rw [← h, hi]

/-- The marker `m` stops the walk: it is above 0xFFF8, or the walk takes it for a cluster
whose entry is free. -/
def Stops (entries : Nat) (fat : Nat → UInt16) (m : Nat) : Prop :=
  0xFFF8 < m ∨ (m < entries ∧ fat m = 0)

theorem isEnd_ge (h : IsEnd fat12 m) : 0xFF8 ≤ m := by
  unfold IsEnd at h
  split at h
  · exact h.1
  · exact Nat.le_trans (by decide) h.1

theorem loop_of_stops {k : Nat} (hm : 0xFF8 ≤ m) (h : Stops entries fat m) :
    loop (freeStep entries) (k + 2) (m, fat) = some (some fat) := by
  rw [loop, freeStep]
  rcases h with habove | ⟨hin, hfree⟩
  · rw [if_neg fun hgo : m ≤ 0xFFF8 ∧ m ≠ 0 => absurd hgo.1 (Nat.not_le_of_gt habove)]
    rfl
  · have hsame : Function.update fat m 0 = fat := by
      rw [← hfree, Function.update_eq_self]
    by_cases hgo : m ≤ 0xFFF8
    · have hpos : m ≠ 0 := by omega
      rw [if_pos (show m ≤ 0xFFF8 ∧ m ≠ 0 from ⟨hgo, hpos⟩), if_pos (show m < entries from hin)]
      show loop (freeStep entries) (k + 1) ((fat m).toNat, Function.update fat m 0) = _
      rw [hfree, hsame, loop, freeStep, if_neg fun hzero => hzero.2 rfl]
      rfl
    · rw [if_neg fun hle : m ≤ 0xFFF8 ∧ m ≠ 0 => hgo hle.1]
      rfl

theorem loop_of_not_stops {k : Nat} (hm : 0xFF8 ≤ m) (h : ¬ Stops entries fat m) :
    ¬ Returns (loop (freeStep entries) (k + 2) (m, fat)) fun r =>
      ∃ fat', r = some fat' ∧ ∀ i < entries, fat' i = fat i := by
  rintro ⟨_, hrun, fat', rfl, hsame⟩
  have hgo : m ≤ 0xFFF8 ∧ m ≠ 0 := ⟨Nat.le_of_not_lt fun hlt => h (.inl hlt), by omega⟩
  rw [loop, freeStep, if_pos hgo] at hrun
  split at hrun
  · rename_i hin
    have hzero := loop_keeps_free hrun (i := m) (Function.update_self ..)
    exact h (.inr ⟨hin, (hsame m hin).symm.trans hzero⟩)
  · exact absurd hrun (by simp)

end Walk

/-! ## The card -/

theorem readsect_one (disk : Disk) (sector : Int) (buf : Bytes) {k : Nat} (hk : k < hardSect) :
    readsect disk sector 1 buf k = disk sector k := by
  have hall : readsect disk sector 1 buf = blit buf 0 (readSector disk sector) hardSect := by
    simp [readsect, readBlocks, blkSize]
  have hread := blit_add buf 0 (readSector disk sector) hk
  rw [Nat.zero_add] at hread
  rw [hall, hread, readSector, Nat.div_eq_of_lt hk, Nat.mod_eq_of_lt hk]
  simp

theorem writesect_one (disk : Disk) (sector : Int) (buf : Bytes) (s : Int) (k : Nat) :
    writesect disk sector 1 buf s k = if s = sector ∧ k < hardSect then buf k else disk s k := by
  have hall : writesect disk sector 1 buf = writeSector disk sector 1 buf := by
    simp [writesect, writeBlocks, blkSize]
  rw [hall, writeSector]
  by_cases h : s = sector ∧ k < hardSect
  · obtain ⟨rfl, hk⟩ := h
    rw [if_pos ⟨le_refl s, by omega, hk⟩, if_pos ⟨rfl, hk⟩, Int.sub_self, Int.toNat_zero,
      Nat.zero_mul, Nat.zero_add]
  · rw [if_neg h, if_neg]
    rintro ⟨hle, hlt, hk⟩
    exact h ⟨by omega, hk⟩

def InTable (st : State) (s : Int) : Prop :=
  st.da.fatStartSector ≤ s ∧ s < st.da.fatStartSector + st.bpb.sectorsPerFat

theorem updateFat_disk (fresh : Bytes) (st : State) {s : Int} (hs : ¬ InTable st s) (k : Nat) :
    (updateFat fresh st).disk s k = st.disk s k := by
  have hin : ∀ i ∈ writtenSectors fresh st, i < st.bpb.sectorsPerFat := fun i hi =>
    List.mem_range.mp (List.mem_of_mem_filter hi)
  unfold updateFat
  show (List.foldl _ st.disk (writtenSectors fresh st)) s k = _
  generalize writtenSectors fresh st = written at hin
  generalize st.disk = disk
  induction written generalizing disk with
  | nil => rfl
  | cons i written ih =>
    rw [List.foldl_cons, ih fun j hj => hin j (List.mem_cons_of_mem _ hj), writesect_one, if_neg]
    rintro ⟨rfl, -⟩
    have hlt := hin i List.mem_cons_self
    exact hs ⟨by omega, by omega⟩

/-! ## The entry of the file -/

theorem loadFileInCWD_keeps {dummy : Bytes} {st st' : State} {filenumber : Nat} {answer : Loaded}
    (h : loadFileInCWD dummy st filenumber = some (answer, st')) :
    st'.disk = st.disk ∧ st'.bpb = st.bpb ∧ st'.da = st.da := by
  unfold loadFileInCWD at h
  obtain ⟨sector, -, h⟩ := Option.bind_eq_some_iff.mp h
  cases sector with
  | none =>
    cases h
    exact ⟨rfl, rfl, rfl⟩
  | some sector =>
    dsimp only at h
    split at h
    · cases h
      exact ⟨rfl, rfl, rfl⟩
    split at h
    · cases h
      exact ⟨rfl, rfl, rfl⟩
    split at h
    · cases h
      exact ⟨rfl, rfl, rfl⟩
    · cases h
      exact ⟨rfl, rfl, rfl⟩

theorem loadFileWithName_keeps {dummy : Bytes} {name : List UInt8} {fuel filenum : Nat}
    {st st' : State} {found : Bool}
    (h : loadFileWithName dummy name fuel st filenum = some (found, st')) :
    st'.disk = st.disk ∧ st'.bpb = st.bpb ∧ st'.da = st.da := by
  induction fuel generalizing st filenum with
  | zero => exact absurd h (by simp [loadFileWithName])
  | succ fuel ih =>
    obtain ⟨⟨answer, st₁⟩, hload, h⟩ := Option.bind_eq_some_iff.mp h
    obtain ⟨hdisk, hbpb, hda⟩ := loadFileInCWD_keeps hload
    have hnext : ∀ {n}, loadFileWithName dummy name fuel st₁ n = some (found, st') →
        st'.disk = st.disk ∧ st'.bpb = st.bpb ∧ st'.da = st.da := by
      intro n hn
      obtain ⟨hdisk', hbpb', hda'⟩ := ih hn
      exact ⟨hdisk'.trans hdisk, hbpb'.trans hbpb, hda'.trans hda⟩
    cases answer with
    | endOfDir =>
      cases h
      exact ⟨hdisk, hbpb, hda⟩
    | file =>
      dsimp only at h
      split at h
      · cases h
        exact ⟨hdisk, hbpb, hda⟩
      · exact hnext h
    | deleted => exact hnext h
    | longFilename => exact hnext h

/-! ## Deleting a file -/

/-- The clusters of a file: an empty one has none, any other one a chain. -/
def FileChain (file : State) (cs : List Nat) (m : Nat) : Prop :=
  (file.fa.startCluster = 0 ∧ cs = []) ∨
    (cs ≠ [] ∧ ClusterChain file.bpb.IsFat12 file.da.entries file.da.fat file.fa.startCluster cs m)

/-- The file whose entry was found is deleted: the call stays inside the table, frees the
clusters of the file and no other one, and marks its entry and no other one. -/
def Deletes (st file : State) (cs : List Nat) (call : Option (Bool × State)) : Prop :=
  Returns call fun r => r.1 = true ∧
    (∀ c < st.da.entries, r.2.da.fat c = if c ∈ cs then 0 else st.da.fat c) ∧
    ∀ s k, ¬ InTable st s → r.2.disk s k =
      if s = file.fa.dirSectorNum ∧ k = 32 * (file.fa.dirEntryNum % 16) then 0xe5
      else st.disk s k

def marked (dummy : Bytes) (file : State) (fat : Nat → UInt16) : State :=
  let st := { file with da := { file.da with fat := fat } }
  let buf := readsect st.disk st.fa.dirSectorNum 1 dummy
  let buf := Function.update buf (32 * (st.fa.dirEntryNum % 16)) 0xe5
  { st with disk := writesect st.disk st.fa.dirSectorNum 1 buf }

theorem fatDeleteFile_found {dummy fresh : Bytes} {fuel : Nat} {name : List UInt8}
    {st file : State} (h : loadFileWithName dummy name fuel st 0 = some (true, file)) :
    fatDeleteFile dummy fresh fuel name st
      = (freeClusters file.da.entries file.fa.startCluster file.da.fat).bind fun walked =>
        walked.map fun fat => (true, updateFat fresh (marked dummy file fat)) := by
  unfold fatDeleteFile
  rw [h]
  show (freeClusters _ _ _).bind _ = _
  congr 1
  funext walked
  cases walked <;> rfl

theorem marked_disk (dummy : Bytes) (file : State) (fat : Nat → UInt16) (s : Int) (k : Nat) :
    (marked dummy file fat).disk s k =
      if s = file.fa.dirSectorNum ∧ k = 32 * (file.fa.dirEntryNum % 16) then 0xe5
      else file.disk s k := by
  unfold marked
  dsimp only
  rw [writesect_one]
  have hentry : 32 * (file.fa.dirEntryNum % 16) < hardSect := by
    have hlt := Nat.mod_lt file.fa.dirEntryNum (show 0 < 16 by decide)
    unfold hardSect
    lia
  by_cases hsector : s = file.fa.dirSectorNum
  · subst hsector
    rcases eq_or_ne k (32 * (file.fa.dirEntryNum % 16)) with rfl | hk
    · rw [if_pos ⟨rfl, hentry⟩, if_pos ⟨rfl, rfl⟩, Function.update_self]
    · rw [Function.update_of_ne hk]
      by_cases hin : k < hardSect
      · rw [if_pos ⟨rfl, hin⟩, readsect_one _ _ _ hin, if_neg fun h => hk h.2]
      · rw [if_neg fun h => hin h.2, if_neg fun h => hk h.2]
  · rw [if_neg fun h => hsector h.1, if_neg fun h => hsector h.1]

def oneFileCard (fat12 : Bool) : Disk := fun sector k =>
  if sector = 0 then
    match k with
    | 12 => 2
    | 13 => 1
    | 14 => 1
    | 16 => 1
    | 17 => 16
    | 22 => 1
    | 54 => 0x46
    | 55 => 0x41
    | 56 => 0x54
    | 57 => 0x31
    | 58 => if fat12 then 0x32 else 0x36
    | _ => 0
  else if sector = 1 then
    if fat12 then if k = 3 then 0xff else if k = 4 then 0x0f else 0
    else if k = 4 ∨ k = 5 then 0xff else 0
  else if sector = 2 then
    match k with
    | 0 => 0x41
    | 8 => 0x20
    | 26 => 2
    | _ => 0
  else 0

def oneFileInit (fat12 : Bool) : Option State :=
  fatInit (oneFileCard fat12) (fun _ => 0) (fun _ => 0) noCWD noFile

theorem oneFileInit_ok (fat12 : Bool) : (oneFileInit fat12).isSome := by
  cases fat12 <;> rfl

def oneFile (fat12 : Bool) : State := (oneFileInit fat12).get (oneFileInit_ok fat12)

theorem oneFile_init (fat12 : Bool) : oneFileInit fat12 = some (oneFile fat12) := by
  rw [oneFile, Option.some_get]

def oneFileLoad (fat12 : Bool) : Option (Bool × State) :=
  loadFileWithName (fun _ => 0) [0x41] 2 (oneFile fat12) 0

theorem oneFileLoad_ok (fat12 : Bool) : (oneFileLoad fat12).isSome := by
  cases fat12 <;> rfl

def oneFileFound (fat12 : Bool) : State := ((oneFileLoad fat12).get (oneFileLoad_ok fat12)).2

theorem oneFile_found (fat12 : Bool) :
    loadFileWithName (fun _ => 0) [0x41] 2 (oneFile fat12) 0
      = some (true, oneFileFound fat12) := by
  have hfound : ((oneFileLoad fat12).get (oneFileLoad_ok fat12)).1 = true := by
    cases fat12 <;> rfl
  have hload : oneFileLoad fat12 = some ((oneFileLoad fat12).get (oneFileLoad_ok fat12)) :=
    (Option.some_get _).symm
  have hpair : (oneFileLoad fat12).get (oneFileLoad_ok fat12) = (true, oneFileFound fat12) :=
    Prod.ext hfound (by rw [oneFileFound])
  exact hload.trans (congrArg some hpair)

theorem oneFile_chain (fat12 : Bool) :
    FileChain (oneFileFound fat12) [2] (if fat12 then 0xFFF else 0xFFFF) := by
  have hcluster : (oneFileFound fat12).fa.startCluster = 2 := by cases fat12 <;> rfl
  have hnext : ((oneFileFound fat12).da.fat 2).toNat = if fat12 then 0xFFF else 0xFFFF := by
    cases fat12 <;> decide +kernel
  refine .inr ⟨List.cons_ne_nil _ _, ?_⟩
  rw [hcluster]
  refine .cons ?_ ?_
  · cases fat12 <;> decide
  · rw [hnext]
    refine .nil ?_
    cases fat12 <;> decide

end Hplip.Pcard
