import Hplip.Pcard.FatDelete
import Mathlib.Data.Nat.Find

/-!
# Scans of a directory

`LoadFileWithName` and the iteration with `FatDirBegin` and `FatDirNext` go through the entries
of the current directory, until `LoadFileInCWD` says that it ends. Neither counts the entries.
-/

namespace Hplip.Pcard

open Loop

/-! ## The scans -/

structure FileAttributes where
  name : List UInt8
  attr : Char
  size : Nat
  deriving DecidableEq

/-- `FatDirNext`, from `fatdir_filenum` on; without attributes it returns 0. -/
def fatDirNext (dummy : Bytes) (st : State) (filenum : Nat) :
    Option (Option FileAttributes × Nat × State) := do
  match ← loadFileInCWD dummy st filenum with
  | (.endOfDir, st) => some (none, filenum, st)
  | (.file, st) =>
    some (some ⟨st.fa.name, if st.fa.attr = 0x10 then 'd' else ' ', st.fa.size⟩, filenum + 1, st)
  | (.deleted, st) => some (some ⟨[], 'x', 0⟩, filenum + 1, st)
  | (.longFilename, st) => some (some ⟨[], 'x', 0⟩, filenum + 1, st)

/-- `FatDirNext` until it returns 0: the entries that it told. -/
def listFrom (dummy : Bytes) : Nat → State → Nat → Option (List FileAttributes)
  | 0, _, _ => none
  | fuel + 1, st, filenum => do
    match ← fatDirNext dummy st filenum with
    | (none, _, _) => some []
    | (some a, filenum, st) => do
      let rest ← listFrom dummy fuel st filenum
      some (a :: rest)

/-- `FatDirBegin`, and `FatDirNext` until it returns 0. -/
def listDirectory (dummy : Bytes) (fuel : Nat) (st : State) : Option (List FileAttributes) :=
  listFrom dummy fuel st 0

/-- The sector that `LoadFileInCWD` reads. -/
def loadReads (st : State) (filenumber : Nat) : List Int :=
  match directorySector st filenumber with
  | some (some sector) => [sector]
  | _ => []

/-- The sectors that `loadFileWithName` reads. -/
def searchReads (dummy : Bytes) (filename : List UInt8) : Nat → State → Nat → List Int
  | 0, _, _ => []
  | fuel + 1, st, filenum =>
    loadReads st filenum ++
      match loadFileInCWD dummy st filenum with
      | some (.file, st) =>
        if SameName st.fa.name filename then []
        else searchReads dummy filename fuel st (filenum + 1)
      | some (.deleted, st) => searchReads dummy filename fuel st (filenum + 1)
      | some (.longFilename, st) => searchReads dummy filename fuel st (filenum + 1)
      | _ => []

/-- The sectors that `listFrom` reads. -/
def listReads (dummy : Bytes) : Nat → State → Nat → List Int
  | 0, _, _ => []
  | fuel + 1, st, filenum =>
    loadReads st filenum ++
      match fatDirNext dummy st filenum with
      | some (some _, filenum, st) => listReads dummy fuel st filenum
      | _ => []

/-! ## The sectors of the directory -/

/-- The `k`-th cluster of the current directory. -/
def State.directoryCluster (st : State) (k : Nat) : Nat :=
  (fun c => (st.da.fat c).toNat)^[k] st.cwd.startCluster

/-- The chain of the current directory goes as far as its `k`-th cluster. -/
def InChain (st : State) (k : Nat) : Prop :=
  ∀ j ≤ k, IsCluster st.bpb.IsFat12 st.da.entries (st.directoryCluster j)

/-- The sectors of the current directory: the root directory's, or those of the clusters of its
chain. -/
def InDirectory (st : State) (s : Int) : Prop :=
  if st.cwd.startCluster = 0 then
    st.da.rootDirStartSector ≤ s ∧ s < st.da.rootDirStartSector + st.da.rootDirNumSectors
  else ∃ k, InChain st k ∧ convertClusterToSector st (st.directoryCluster k) ≤ s ∧
    s < convertClusterToSector st (st.directoryCluster k) + st.bpb.sectorsPerCluster

/-- **Every scan ends** and reads sectors of the directory only. -/
structure ScansEnd (dummy : Bytes) (st : State) : Prop where
  search : ∀ name, ∃ fuel, (loadFileWithName dummy name fuel st 0).isSome ∧
    ∀ s ∈ searchReads dummy name fuel st 0, InDirectory st s
  list : ∃ fuel, (listDirectory dummy fuel st).isSome ∧
    ∀ s ∈ listReads dummy fuel st 0, InDirectory st s

def IsLast (st : State) (s : Int) (i : Nat) : Prop := st.disk s (32 * (i % 16)) = 0

/-- The cluster that `LoadFileInCWD` takes for the end of the chain. -/
def IsChainEnd (c : Nat) : Prop := c = 0 ∨ 0xfff7 ≤ c

instance (c : Nat) : Decidable (IsChainEnd c) := inferInstanceAs (Decidable (_ ∨ _))

def ClosedRoot (st : State) : Prop :=
  st.da.rootDirStartSector ≤ st.cwd.startSector ∧
    ∃ i : Nat, st.cwd.startSector + (i / 16 : Nat)
        < st.da.rootDirStartSector + st.da.rootDirNumSectors ∧
      IsLast st (st.cwd.startSector + (i / 16 : Nat)) i

/-- The chain of a subdirectory ends as `LoadFileInCWD` expects it, or a cluster of it has an
entry that ends the directory. -/
def ClosedChain (st : State) : Prop :=
  0 < st.bpb.sectorsPerCluster ∧ ∃ k,
    (∀ j < k, IsCluster st.bpb.IsFat12 st.da.entries (st.directoryCluster j)) ∧
      (IsChainEnd (st.directoryCluster k) ∨
        IsCluster st.bpb.IsFat12 st.da.entries (st.directoryCluster k) ∧
          ∃ i < 16 * st.bpb.sectorsPerCluster,
            IsLast st (convertClusterToSector st (st.directoryCluster k) + (i / 16 : Nat)) i)

/-- What the directory and the table have to hold. -/
def Closed (st : State) : Prop :=
  if st.cwd.startCluster = 0 then ClosedRoot st else ClosedChain st

/-! ## One entry -/

structure SameDirectory (st st' : State) : Prop where
  disk : st'.disk = st.disk
  bpb : st'.bpb = st.bpb
  da : st'.da = st.da
  startCluster : st'.cwd.startCluster = st.cwd.startCluster
  startSector : st'.cwd.startSector = st.cwd.startSector

theorem SameDirectory.refl (st : State) : SameDirectory st st := ⟨rfl, rfl, rfl, rfl, rfl⟩

theorem SameDirectory.trans {st₁ st₂ st₃ : State} (h : SameDirectory st₁ st₂)
    (h' : SameDirectory st₂ st₃) : SameDirectory st₁ st₃ :=
  ⟨h'.disk.trans h.disk, h'.bpb.trans h.bpb, h'.da.trans h.da,
    h'.startCluster.trans h.startCluster, h'.startSector.trans h.startSector⟩

theorem SameDirectory.walk {st st' : State} (h : SameDirectory st st') (n cluster : Nat) :
    walk st' n cluster = walk st n cluster := by
  induction n generalizing cluster with
  | zero => rfl
  | succ n ih =>
    unfold Pcard.walk getNextCluster
    rw [h.da]
    simp only [ih]

theorem SameDirectory.sector {st st' : State} (h : SameDirectory st st') (i : Nat) :
    directorySector st' i = directorySector st i := by
  have hcluster : ∀ c, convertClusterToSector st' c = convertClusterToSector st c := fun c => by
    rw [convertClusterToSector, convertClusterToSector, h.bpb, h.da]
  unfold directorySector
  simp only [h.startCluster, h.startSector, h.bpb, h.da, h.walk, hcluster]

theorem loadFileInCWD_none {dummy : Bytes} {st : State} {i : Nat}
    (h : directorySector st i = none) : loadFileInCWD dummy st i = none := by
  unfold loadFileInCWD
  rw [h]
  rfl

theorem loadFileInCWD_end {dummy : Bytes} {st : State} {i : Nat}
    (h : directorySector st i = some none) : loadFileInCWD dummy st i = some (.endOfDir, st) := by
  unfold loadFileInCWD
  rw [h]
  rfl

theorem loadFileInCWD_entry (dummy : Bytes) {st : State} {i : Nat} {s : Int}
    (h : directorySector st i = some (some s)) :
    ∃ answer st', loadFileInCWD dummy st i = some (answer, st') ∧ SameDirectory st st' ∧
      (answer = .endOfDir ↔ IsLast st s i) := by
  have hbyte : readsect st.disk s 1 dummy (32 * (i % 16)) = st.disk s (32 * (i % 16)) := by
    refine readsect_one _ _ _ ?_
    have hlt := Nat.mod_lt i (show 0 < 16 by decide)
    unfold hardSect
    lia
  unfold loadFileInCWD
  rw [h]
  show ∃ answer st', (if readsect st.disk s 1 dummy (32 * (i % 16)) = 0 then _ else _)
    = some (answer, st') ∧ _
  rw [hbyte]
  by_cases hlast : st.disk s (32 * (i % 16)) = 0
  · rw [if_pos hlast]
    exact ⟨_, _, rfl, ⟨rfl, rfl, rfl, rfl, rfl⟩, iff_of_true rfl hlast⟩
  rw [if_neg hlast]
  split
  · exact ⟨_, _, rfl, ⟨rfl, rfl, rfl, rfl, rfl⟩, iff_of_false (by decide) hlast⟩
  dsimp only
  split
  · exact ⟨_, _, rfl, ⟨rfl, rfl, rfl, rfl, rfl⟩, iff_of_false (by decide) hlast⟩
  · exact ⟨_, _, rfl, ⟨rfl, rfl, rfl, rfl, rfl⟩, iff_of_false (by decide) hlast⟩

/-! ## Whole scans -/

/-- The scan goes on behind entry `i`. -/
def GoesOn (st : State) (i : Nat) : Prop :=
  ∃ s, directorySector st i = some (some s) ∧ InDirectory st s ∧ ¬ IsLast st s i

/-- The scan ends at entry `i`. -/
def EndsAt (st : State) (i : Nat) : Prop :=
  directorySector st i = some none ∨
    ∃ s, directorySector st i = some (some s) ∧ InDirectory st s ∧ IsLast st s i

section Scans

variable {dummy : Bytes} {st st' : State} {i : Nat}

theorem loadReads_entry {s : Int} (h : directorySector st i = some (some s)) :
    loadReads st i = [s] := by
  rw [loadReads, h]

theorem loadReads_end (h : directorySector st i = some none) : loadReads st i = [] := by
  rw [loadReads, h]

theorem fatDirNext_end (h : loadFileInCWD dummy st i = some (.endOfDir, st')) :
    fatDirNext dummy st i = some (none, i, st') := by
  unfold fatDirNext
  rw [h]
  rfl

theorem fatDirNext_more {answer : Loaded} (h : loadFileInCWD dummy st i = some (answer, st'))
    (hmore : answer ≠ .endOfDir) :
    ∃ a, fatDirNext dummy st i = some (some a, i + 1, st') := by
  unfold fatDirNext
  rw [h]
  cases answer with
  | endOfDir => exact absurd rfl hmore
  | file => exact ⟨_, rfl⟩
  | deleted => exact ⟨_, rfl⟩
  | longFilename => exact ⟨_, rfl⟩

theorem goes_of_list {fuel : Nat} (hsame : SameDirectory st st')
    (hends : (listFrom dummy fuel st' i).isSome)
    (hreads : ∀ s ∈ listReads dummy fuel st' i, InDirectory st s) :
    ∃ n, (∀ j < n, GoesOn st (i + j)) ∧ EndsAt st (i + n) := by
  induction fuel generalizing st' i with
  | zero => exact absurd hends (by simp [listFrom])
  | succ fuel ih =>
    rcases hsector : directorySector st i with _ | _ | s
    · have hnone : fatDirNext dummy st' i = none := by
        unfold fatDirNext
        rw [loadFileInCWD_none (by rw [hsame.sector, hsector])]
        rfl
      rw [listFrom, hnone] at hends
      exact absurd hends (by simp)
    · exact ⟨0, fun j hj => absurd hj (Nat.not_lt_zero j), .inl hsector⟩
    · have hsector' : directorySector st' i = some (some s) := by rw [hsame.sector, hsector]
      obtain ⟨answer, st₁, hload, hsame₁, hanswer⟩ := loadFileInCWD_entry dummy hsector'
      rw [listReads, loadReads_entry hsector'] at hreads
      have hin : InDirectory st s := hreads s (List.mem_append_left _ List.mem_cons_self)
      have hlast : IsLast st' s i ↔ IsLast st s i := by rw [IsLast, hsame.disk, IsLast]
      by_cases hend : answer = .endOfDir
      · exact ⟨0, fun j hj => absurd hj (Nat.not_lt_zero j),
          .inr ⟨s, hsector, hin, hlast.mp (hanswer.mp hend)⟩⟩
      · obtain ⟨a, hnext⟩ := fatDirNext_more hload hend
        rw [hnext] at hreads
        rw [listFrom, hnext] at hends
        have hrest : (listFrom dummy fuel st₁ (i + 1)).isSome := by
          rcases hlist : listFrom dummy fuel st₁ (i + 1) with _ | rest
          · change ((listFrom dummy fuel st₁ (i + 1)).bind _).isSome = true at hends
            rw [hlist] at hends
            exact hends
          · rfl
        obtain ⟨n, hgoes, hstop⟩ := ih (hsame.trans hsame₁) hrest fun t ht =>
          hreads t (List.mem_append_right _ ht)
        refine ⟨n + 1, fun j hj => ?_, ?_⟩
        · rcases j with _ | j
          · exact ⟨s, hsector, hin, fun h => hend (hanswer.mpr (hlast.mpr h))⟩
          · rw [show i + (j + 1) = i + 1 + j by omega]
            exact hgoes j (by omega)
        · rw [show i + (n + 1) = i + 1 + n by omega]
          exact hstop

theorem load_of_endsAt (dummy : Bytes) (hsame : SameDirectory st st') (hstop : EndsAt st i) :
    ∃ st₁, loadFileInCWD dummy st' i = some (.endOfDir, st₁) ∧
      ∀ s ∈ loadReads st' i, InDirectory st s := by
  rcases hstop with hend | ⟨s, hsector, hin, hlast⟩
  · rw [← hsame.sector] at hend
    refine ⟨st', loadFileInCWD_end hend, ?_⟩
    rw [loadReads_end hend]
    exact fun s hs => absurd hs List.not_mem_nil
  · rw [← hsame.sector] at hsector
    obtain ⟨answer, st₁, hload, -, hanswer⟩ := loadFileInCWD_entry dummy hsector
    obtain rfl : answer = .endOfDir := hanswer.mpr (by rwa [IsLast, hsame.disk])
    refine ⟨st₁, hload, ?_⟩
    rw [loadReads_entry hsector]
    exact fun t ht => by rwa [List.mem_singleton.mp ht]

theorem load_of_goesOn (dummy : Bytes) (hsame : SameDirectory st st') (hgoes : GoesOn st i) :
    ∃ s answer st₁, loadFileInCWD dummy st' i = some (answer, st₁) ∧ SameDirectory st st₁ ∧
      answer ≠ .endOfDir ∧ loadReads st' i = [s] ∧ InDirectory st s := by
  obtain ⟨s, hsector, hin, hlast⟩ := hgoes
  rw [← hsame.sector] at hsector
  obtain ⟨answer, st₁, hload, hsame₁, hanswer⟩ := loadFileInCWD_entry dummy hsector
  refine ⟨s, answer, st₁, hload, hsame.trans hsame₁, fun hend => hlast ?_,
    loadReads_entry hsector, hin⟩
  have hlast' := hanswer.mp hend
  rwa [IsLast, hsame.disk] at hlast'

theorem goes_tail {n : Nat} (hgoes : ∀ j < n + 1, GoesOn st (i + j))
    (hstop : EndsAt st (i + (n + 1))) :
    (∀ j < n, GoesOn st (i + 1 + j)) ∧ EndsAt st (i + 1 + n) := by
  have hnext : ∀ j, i + 1 + j = i + (j + 1) := fun j => by omega
  refine ⟨fun j hj => ?_, ?_⟩
  · rw [hnext]
    exact hgoes (j + 1) (Nat.succ_lt_succ hj)
  · rwa [hnext]

theorem list_of_goes {n : Nat} (hsame : SameDirectory st st')
    (hgoes : ∀ j < n, GoesOn st (i + j)) (hstop : EndsAt st (i + n)) :
    ∃ fuel, (listFrom dummy fuel st' i).isSome ∧
      ∀ s ∈ listReads dummy fuel st' i, InDirectory st s := by
  induction n generalizing st' i with
  | zero =>
    rw [Nat.add_zero] at hstop
    obtain ⟨st₁, hload, hin⟩ := load_of_endsAt dummy hsame hstop
    refine ⟨1, ?_⟩
    rw [listFrom, listReads, fatDirNext_end hload]
    dsimp only
    rw [List.append_nil]
    exact ⟨rfl, hin⟩
  | succ n ih =>
    have hfirst := hgoes 0 (Nat.succ_pos n)
    rw [Nat.add_zero] at hfirst
    obtain ⟨s, answer, st₁, hload, hsame₁, hmore, hread, hin⟩ := load_of_goesOn dummy hsame hfirst
    obtain ⟨a, hnext⟩ := fatDirNext_more hload hmore
    obtain ⟨hgoes', hstop'⟩ := goes_tail hgoes hstop
    obtain ⟨fuel, hends, hreads⟩ := ih hsame₁ hgoes' hstop'
    refine ⟨fuel + 1, ?_, fun t ht => ?_⟩
    · rw [listFrom, hnext]
      show ((listFrom dummy fuel st₁ (i + 1)).bind _).isSome = true
      obtain ⟨rest, hrest⟩ := Option.isSome_iff_exists.mp hends
      rw [hrest]
      rfl
    · rw [listReads, hnext, hread] at ht
      rcases List.mem_append.mp ht with ht | ht
      · rwa [List.mem_singleton.mp ht]
      · exact hreads t ht

theorem search_of_goes {n : Nat} (name : List UInt8) (hsame : SameDirectory st st')
    (hgoes : ∀ j < n, GoesOn st (i + j)) (hstop : EndsAt st (i + n)) :
    ∃ fuel, (loadFileWithName dummy name fuel st' i).isSome ∧
      ∀ s ∈ searchReads dummy name fuel st' i, InDirectory st s := by
  induction n generalizing st' i with
  | zero =>
    rw [Nat.add_zero] at hstop
    obtain ⟨st₁, hload, hin⟩ := load_of_endsAt dummy hsame hstop
    refine ⟨1, ?_⟩
    rw [loadFileWithName, searchReads, hload]
    dsimp only
    rw [List.append_nil]
    exact ⟨rfl, hin⟩
  | succ n ih =>
    have hfirst := hgoes 0 (Nat.succ_pos n)
    rw [Nat.add_zero] at hfirst
    obtain ⟨s, answer, st₁, hload, hsame₁, hgoing, hread, hin⟩ := load_of_goesOn dummy hsame hfirst
    obtain ⟨hgoes', hstop'⟩ := goes_tail hgoes hstop
    obtain ⟨fuel, hends, hreads⟩ := ih hsame₁ hgoes' hstop'
    -- the scan goes on, unless this is the file
    have hmore : (loadFileWithName dummy name (fuel + 1) st' i = some (true, st₁) ∧
          searchReads dummy name (fuel + 1) st' i = [s]) ∨
        (loadFileWithName dummy name (fuel + 1) st' i = loadFileWithName dummy name fuel st₁ (i + 1) ∧
          searchReads dummy name (fuel + 1) st' i = [s] ++ searchReads dummy name fuel st₁ (i + 1)) := by
      rw [loadFileWithName, searchReads, hload, hread]
      cases answer with
      | endOfDir => exact absurd rfl hgoing
      | file =>
        by_cases hname : SameName st₁.fa.name name
        · left
          simp [hname]
        · right
          simp [hname]
      | deleted => exact .inr ⟨rfl, rfl⟩
      | longFilename => exact .inr ⟨rfl, rfl⟩
    refine ⟨fuel + 1, ?_⟩
    rcases hmore with ⟨hrun, htrace⟩ | ⟨hrun, htrace⟩
    · rw [hrun, htrace]
      exact ⟨rfl, fun t ht => by rwa [List.mem_singleton.mp ht]⟩
    · rw [hrun, htrace]
      refine ⟨hends, fun t ht => ?_⟩
      rcases List.mem_append.mp ht with ht | ht
      · rwa [List.mem_singleton.mp ht]
      · exact hreads t ht

/-- Every scan ends in the directory if and only if one goes through entries of the directory
to its end. -/
theorem scansEnd_iff_goes :
    ScansEnd dummy st ↔ ∃ n, (∀ i < n, GoesOn st i) ∧ EndsAt st n := by
  constructor
  · rintro ⟨-, fuel, hends, hreads⟩
    obtain ⟨n, hgoes, hstop⟩ := goes_of_list (SameDirectory.refl st) hends hreads
    simp only [Nat.zero_add] at hgoes hstop
    exact ⟨n, hgoes, hstop⟩
  · rintro ⟨n, hgoes, hstop⟩
    have hgoes' : ∀ j < n, GoesOn st (0 + j) := fun j hj => by
      rw [Nat.zero_add]
      exact hgoes j hj
    have hstop' : EndsAt st (0 + n) := by rwa [Nat.zero_add]
    exact ⟨fun name => search_of_goes name (SameDirectory.refl st) hgoes' hstop',
      list_of_goes (SameDirectory.refl st) hgoes' hstop'⟩

/-- Entry `i` lies in the directory. -/
def Inside (st : State) (i : Nat) : Prop :=
  ∃ s, directorySector st i = some (some s) ∧ InDirectory st s

theorem GoesOn.inside (h : GoesOn st i) : Inside st i := by
  obtain ⟨s, hsector, hin, -⟩ := h
  exact ⟨s, hsector, hin⟩

theorem goes_of_inside {m : Nat} (hin : ∀ i < m, Inside st i) (hend : EndsAt st m) :
    ∃ n, (∀ i < n, GoesOn st i) ∧ EndsAt st n := by
  classical
  by_cases hfirst : ∃ n, n < m ∧ ¬ GoesOn st n
  · obtain ⟨hlt, hstop⟩ := Nat.find_spec hfirst
    refine ⟨Nat.find hfirst, fun i hi => ?_, ?_⟩
    · by_contra hgo
      exact Nat.find_min hfirst hi ⟨by omega, hgo⟩
    · obtain ⟨s, hsector, hdir⟩ := hin _ hlt
      refine .inr ⟨s, hsector, hdir, ?_⟩
      by_contra hlast
      exact hstop ⟨s, hsector, hdir, hlast⟩
  · refine ⟨m, fun i hi => ?_, hend⟩
    by_contra hgo
    exact hfirst ⟨i, hi, hgo⟩

end Scans

/-! ## The root directory -/

section Root

variable {st : State} (hroot : st.cwd.startCluster = 0)

include hroot

theorem directorySector_root (i : Nat) :
    directorySector st i = if i > st.da.rootDirNumSectors * 16 then some none
      else some (some (st.cwd.startSector + (i / 16 : Nat))) := by
  unfold directorySector
  rw [if_neg (not_not.mpr hroot)]

theorem inDirectory_root (s : Int) :
    InDirectory st s ↔ st.da.rootDirStartSector ≤ s ∧
      s < st.da.rootDirStartSector + st.da.rootDirNumSectors := by
  rw [InDirectory, if_pos hroot]

theorem inside_root {i : Nat} (h : Inside st i) :
    st.da.rootDirStartSector ≤ st.cwd.startSector + (i / 16 : Nat) ∧
      st.cwd.startSector + (i / 16 : Nat)
        < st.da.rootDirStartSector + st.da.rootDirNumSectors := by
  obtain ⟨s, hsector, hin⟩ := h
  rw [directorySector_root hroot] at hsector
  split at hsector
  · exact absurd hsector (by simp)
  · obtain rfl := Option.some.inj (Option.some.inj hsector)
    exact (inDirectory_root hroot _).mp hin

theorem goes_root_iff :
    (∃ n, (∀ i < n, GoesOn st i) ∧ EndsAt st n) ↔ ClosedRoot st := by
  constructor
  · rintro ⟨n, hgoes, hend⟩
    have hstart : n ≠ 0 → st.da.rootDirStartSector ≤ st.cwd.startSector := by
      intro hn
      have hfirst := (inside_root hroot (hgoes 0 (Nat.pos_of_ne_zero hn)).inside).1
      rw [Nat.zero_div] at hfirst
      lia
    rcases hend with hbound | ⟨s, hsector, hin, hlast⟩
    · rw [directorySector_root hroot] at hbound
      split at hbound
      · rename_i hlarge
        have hpast := (inside_root hroot
          (hgoes (st.da.rootDirNumSectors * 16) hlarge).inside).2
        have hstart := hstart (by lia)
        rw [Nat.mul_div_cancel _ (by decide : 0 < 16)] at hpast
        lia
      · exact absurd hbound (by simp)
    · have hinside := inside_root hroot ⟨s, hsector, hin⟩
      rw [directorySector_root hroot] at hsector
      split at hsector
      · exact absurd hsector (by simp)
      obtain rfl := Option.some.inj (Option.some.inj hsector)
      refine ⟨?_, n, hinside.2, hlast⟩
      rcases Nat.eq_zero_or_pos n with rfl | hn
      · rw [Nat.zero_div] at hinside
        lia
      · exact hstart (Nat.ne_of_gt hn)
  · rintro ⟨hstart, n, hlt, hlast⟩
    have hsector : ∀ i ≤ n, directorySector st i
        = some (some (st.cwd.startSector + (i / 16 : Nat))) := fun i hi => by
      rw [directorySector_root hroot, if_neg (by lia)]
    have hin : ∀ i ≤ n, InDirectory st (st.cwd.startSector + (i / 16 : Nat)) := fun i hi =>
      (inDirectory_root hroot _).mpr ⟨by lia, by lia⟩
    exact goes_of_inside (m := n) (fun i hi => ⟨_, hsector i hi.le, hin i hi.le⟩)
      (.inr ⟨_, hsector n (Nat.le_refl n), hin n (Nat.le_refl n), hlast⟩)

end Root

/-! ## Subdirectories -/

section Chains

variable {st : State}

theorem directoryCluster_succ (st : State) (k : Nat) :
    st.directoryCluster (k + 1) = (st.da.fat (st.directoryCluster k)).toNat :=
  Function.iterate_succ_apply' ..

/-- A cluster that `LoadFileInCWD` goes on from. -/
def LinksOn (st : State) (c : Nat) : Prop :=
  IsCluster st.bpb.IsFat12 st.da.entries c ∧ ¬ IsChainEnd c

theorem walk_chain {k n : Nat} (hlinks : ∀ j < k, LinksOn st (st.directoryCluster j))
    (hkn : k ≤ n) (hend : k = n ∨ IsChainEnd (st.directoryCluster k)) :
    walk st n st.cwd.startCluster = some (st.directoryCluster k) := by
  have hwalk : ∀ j ≤ k, walk st n st.cwd.startCluster
      = walk st (n - j) (st.directoryCluster j) := by
    intro j
    induction j with
    | zero =>
      intro _
      rfl
    | succ j ih =>
      intro hj
      obtain ⟨hcluster, hend⟩ := hlinks j (by lia)
      rw [IsChainEnd, not_or, Nat.not_le] at hend
      rw [ih (by lia), show n - j = n - (j + 1) + 1 by lia, walk,
        if_pos ⟨hend.2, hend.1⟩, getNextCluster, check_pos hcluster.2.1, directoryCluster_succ]
      rfl
  rw [hwalk k (Nat.le_refl k)]
  rcases Nat.eq_or_lt_of_le hkn with rfl | hlt
  · rw [Nat.sub_self, walk]
  · have hend := hend.resolve_left (Nat.ne_of_lt hlt)
    rw [show n - k = n - k - 1 + 1 by lia, walk, if_neg]
    rintro ⟨hlow, hpos⟩
    rcases hend with hzero | hhigh
    · exact hpos hzero
    · lia

theorem cluster_of_sector {c c' : Nat} {s : Int}
    (h : convertClusterToSector st c ≤ s ∧
      s < convertClusterToSector st c + st.bpb.sectorsPerCluster)
    (h' : convertClusterToSector st c' ≤ s ∧
      s < convertClusterToSector st c' + st.bpb.sectorsPerCluster) : c = c' := by
  rw [convertClusterToSector] at h h'
  have hmono : ∀ a b : Nat, a < b → ((a : Int) - 2) * st.bpb.sectorsPerCluster
      + st.bpb.sectorsPerCluster ≤ ((b : Int) - 2) * st.bpb.sectorsPerCluster := by
    intro a b hab
    have hmul := Int.mul_le_mul_of_nonneg_right (show (a : Int) - 2 + 1 ≤ (b : Int) - 2 by lia)
      (show (0 : Int) ≤ st.bpb.sectorsPerCluster by lia)
    rwa [Int.add_mul, Int.one_mul] at hmul
  rcases Nat.lt_trichotomy c c' with hlt | heq | hgt
  · have := hmono c c' hlt
    lia
  · exact heq
  · have := hmono c' c hgt
    lia

end Chains

section Subdirectory

variable {st : State} (hsub : st.cwd.startCluster ≠ 0)

include hsub

theorem directorySector_none (hunit : st.bpb.sectorsPerCluster = 0) (i : Nat) :
    directorySector st i = none := by
  unfold directorySector
  rw [if_pos hsub, check, if_neg (not_not.mpr hunit)]
  rfl

theorem inDirectory_chain (s : Int) :
    InDirectory st s ↔ ∃ k, InChain st k ∧
      convertClusterToSector st (st.directoryCluster k) ≤ s ∧
        s < convertClusterToSector st (st.directoryCluster k) + st.bpb.sectorsPerCluster := by
  rw [InDirectory, if_neg hsub]

theorem directorySector_walk (hunit : 0 < st.bpb.sectorsPerCluster) {i c : Nat}
    (hwalk : walk st (i / 16 / st.bpb.sectorsPerCluster) st.cwd.startCluster = some c) :
    directorySector st i = if IsChainEnd c then some none
      else some (some (convertClusterToSector st c
        + (i / 16 % st.bpb.sectorsPerCluster : Nat))) := by
  have hmod : i / 16 - i / 16 / st.bpb.sectorsPerCluster * st.bpb.sectorsPerCluster
      = i / 16 % st.bpb.sectorsPerCluster := by
    have hsum := Nat.div_add_mod (i / 16) st.bpb.sectorsPerCluster
    rw [Nat.mul_comm] at hsum
    lia
  have hcond : (c ≥ 0xfff7 ∨ c = 0) ↔ IsChainEnd c := or_comm
  unfold directorySector
  rw [if_pos hsub, check_pos (Nat.ne_of_gt hunit)]
  show (walk st (i / 16 / st.bpb.sectorsPerCluster) st.cwd.startCluster).bind _ = _
  rw [hwalk, Option.bind_some, hmod]
  by_cases hend : IsChainEnd c
  · rw [if_pos (hcond.mpr hend), if_pos hend]
  · rw [if_neg fun h => hend (hcond.mp h), if_neg hend]

theorem directorySector_links (hunit : 0 < st.bpb.sectorsPerCluster) {i : Nat}
    (hlinks : ∀ j < i / 16 / st.bpb.sectorsPerCluster, LinksOn st (st.directoryCluster j)) :
    directorySector st i
      = if IsChainEnd (st.directoryCluster (i / 16 / st.bpb.sectorsPerCluster)) then some none
        else some (some (convertClusterToSector st
          (st.directoryCluster (i / 16 / st.bpb.sectorsPerCluster))
            + (i / 16 % st.bpb.sectorsPerCluster : Nat))) :=
  directorySector_walk hsub hunit (walk_chain hlinks (Nat.le_refl _) (.inl rfl))

theorem cluster_inside {c r : Nat}
    (hr : r < st.bpb.sectorsPerCluster)
    (hin : InDirectory st (convertClusterToSector st c + (r : Nat))) :
    IsCluster st.bpb.IsFat12 st.da.entries c := by
  obtain ⟨k, hchain, hsector⟩ := (inDirectory_chain hsub _).mp hin
  have hsame := cluster_of_sector (c := c) ⟨by omega, by omega⟩ hsector
  rw [hsame]
  exact hchain k (Nat.le_refl k)

theorem goes_chain_iff :
    (∃ n, (∀ i < n, GoesOn st i) ∧ EndsAt st n) ↔ ClosedChain st := by
  rcases Nat.eq_zero_or_pos st.bpb.sectorsPerCluster with hzero | hunit
  · -- the division gets every scan stuck
    refine iff_of_false ?_ fun h => absurd h.1 (by lia)
    rintro ⟨n, -, hend | ⟨s, hsector, -⟩⟩
    · rw [directorySector_none hsub hzero] at hend
      cases hend
    · rw [directorySector_none hsub hzero] at hsector
      cases hsector
  have hdiv : ∀ j r, r < 16 * st.bpb.sectorsPerCluster →
      (16 * st.bpb.sectorsPerCluster * j + r) / 16 / st.bpb.sectorsPerCluster = j := by
    intro j r hr
    rw [Nat.div_div_eq_div_mul, Nat.add_comm, Nat.add_mul_div_left _ _ (by lia),
      Nat.div_eq_of_lt hr, Nat.zero_add]
  constructor
  · rintro ⟨n, hgoes, hend⟩
    -- every cluster before the one of the last entry is one of the chain
    have hlinks : ∀ j < n / 16 / st.bpb.sectorsPerCluster, LinksOn st (st.directoryCluster j) := by
      intro j
      induction j using Nat.strong_induction_on with
      | _ j ih =>
        intro hj
        have hcluster := hdiv j 0 (by lia)
        rw [Nat.add_zero] at hcluster
        have hlt : 16 * st.bpb.sectorsPerCluster * j < n := by
          rw [Nat.div_div_eq_div_mul] at hj
          have hmul := (Nat.le_div_iff_mul_le (by lia)).mp (Nat.succ_le_of_lt hj)
          rw [Nat.succ_mul, Nat.mul_comm] at hmul
          lia
        obtain ⟨s, hsector, hin, -⟩ := hgoes _ hlt
        rw [directorySector_links hsub hunit (by
          rw [hcluster]
          exact fun a ha => ih a ha (by lia)), hcluster] at hsector
        split at hsector
        · cases hsector
        · rename_i hmore
          obtain rfl := Option.some.inj (Option.some.inj hsector)
          exact ⟨cluster_inside hsub (Nat.mod_lt _ hunit) hin, hmore⟩
    refine ⟨hunit, n / 16 / st.bpb.sectorsPerCluster, fun j hj => (hlinks j hj).1, ?_⟩
    have hsector := directorySector_links hsub hunit hlinks
    rcases hend with hnone | ⟨s, hread, hin, hlast⟩
    · rw [hnone] at hsector
      split at hsector
      · exact .inl ‹_›
      · cases hsector
    · rw [hread] at hsector
      split at hsector
      · cases hsector
      obtain rfl := Option.some.inj (Option.some.inj hsector)
      refine .inr ⟨cluster_inside hsub (Nat.mod_lt _ hunit) hin,
        n % (16 * st.bpb.sectorsPerCluster), Nat.mod_lt _ (by lia), ?_⟩
      have hsector' : n % (16 * st.bpb.sectorsPerCluster) / 16
          = n / 16 % st.bpb.sectorsPerCluster := Nat.mod_mul_right_div_self ..
      have hentry : n % (16 * st.bpb.sectorsPerCluster) % 16 = n % 16 := Nat.mod_mul_right_mod ..
      rw [IsLast, hsector', hentry]
      exact hlast
  · rintro ⟨-, k, hclusters, hend⟩
    -- entries of clusters that are linked lie in the directory
    have hinside : ∀ i q, i / 16 / st.bpb.sectorsPerCluster = q →
        (∀ j ≤ q, LinksOn st (st.directoryCluster j)) →
          ∃ s, s = convertClusterToSector st (st.directoryCluster q)
              + (i / 16 % st.bpb.sectorsPerCluster : Nat) ∧
            directorySector st i = some (some s) ∧ InDirectory st s := by
      rintro i _ rfl hlinks
      have hmod := Nat.mod_lt (i / 16) hunit
      refine ⟨_, rfl, ?_, (inDirectory_chain hsub _).mpr ⟨_, fun j hj => (hlinks j hj).1, ?_, ?_⟩⟩
      · rw [directorySector_links hsub hunit fun j hj => hlinks j hj.le,
          if_neg (hlinks _ (Nat.le_refl _)).2]
      · lia
      · lia
    have hbefore : ∀ m i, i < 16 * st.bpb.sectorsPerCluster * m →
        i / 16 / st.bpb.sectorsPerCluster < m := by
      intro m i hi
      rw [Nat.div_div_eq_div_mul]
      exact Nat.div_lt_of_lt_mul hi
    classical
    by_cases hstop : ∃ m, m ≤ k ∧ IsChainEnd (st.directoryCluster m)
    · -- the chain ends at its first end marker
      obtain ⟨hle, hmark⟩ := Nat.find_spec hstop
      have hlinks : ∀ j < Nat.find hstop, LinksOn st (st.directoryCluster j) := fun j hj =>
        ⟨hclusters j (by lia), fun h => Nat.find_min hstop hj ⟨by lia, h⟩⟩
      generalize Nat.find hstop = m at hle hmark hlinks
      refine goes_of_inside (m := 16 * st.bpb.sectorsPerCluster * m) (fun i hi => ?_) (.inl ?_)
      · have hq := hbefore m i hi
        obtain ⟨s, -, hsector, hin⟩ := hinside i _ rfl fun j hj => hlinks j (by lia)
        exact ⟨s, hsector, hin⟩
      · have hcluster := hdiv m 0 (by lia)
        rw [Nat.add_zero] at hcluster
        rw [directorySector_links hsub hunit (by rwa [hcluster]), hcluster, if_pos hmark]
    · -- an entry of the last cluster ends the directory
      rcases hend with hmark | ⟨hcluster, i, hi, hlast⟩
      · exact absurd ⟨k, Nat.le_refl k, hmark⟩ hstop
      have hlinks : ∀ j ≤ k, LinksOn st (st.directoryCluster j) := by
        intro j hj
        refine ⟨?_, fun h => hstop ⟨j, hj, h⟩⟩
        rcases Nat.eq_or_lt_of_le hj with rfl | hlt
        · exact hcluster
        · exact hclusters j hlt
      refine goes_of_inside (m := 16 * st.bpb.sectorsPerCluster * k + i) (fun e he => ?_) (.inr ?_)
      · have hq : e / 16 / st.bpb.sectorsPerCluster < k + 1 := hbefore (k + 1) e (by
          rw [Nat.mul_add, Nat.mul_one]
          lia)
        obtain ⟨s, -, hsector, hin⟩ := hinside e _ rfl fun j hj => hlinks j (by lia)
        exact ⟨s, hsector, hin⟩
      · obtain ⟨s, hs, hsector, hin⟩ := hinside _ k (hdiv k i hi) hlinks
        refine ⟨s, hsector, hin, ?_⟩
        have hread : (16 * st.bpb.sectorsPerCluster * k + i) / 16 % st.bpb.sectorsPerCluster
            = i / 16 := by
          rw [Nat.mul_assoc, Nat.add_comm, Nat.add_mul_div_left _ _ (by decide),
            Nat.add_mul_mod_self_left, Nat.mod_eq_of_lt (Nat.div_lt_of_lt_mul hi)]
        have hentry : (16 * st.bpb.sectorsPerCluster * k + i) % 16 = i % 16 := by
          rw [Nat.mul_assoc, Nat.add_comm, Nat.add_mul_mod_self_left]
        rw [hs, hread, IsLast, hentry]
        exact hlast

end Subdirectory

/-- **Every scan ends and stays in the directory** if and only if the directory is closed. -/
theorem scansEnd_iff (dummy : Bytes) (st : State) : ScansEnd dummy st ↔ Closed st := by
  rw [scansEnd_iff_goes, Closed]
  by_cases hroot : st.cwd.startCluster = 0
  · rw [if_pos hroot, goes_root_iff hroot]
  · rw [if_neg hroot, goes_chain_iff hroot]

/-- A card whose root directory has no room left: all of its 16 entries are of deleted files. -/
def fullRootCard : Disk := fun sector k =>
  if sector = 2 then 0xe5 else oneFileCard false sector k

def fullRootInit : Option State :=
  fatInit fullRootCard (fun _ => 0) (fun _ => 0) noCWD noFile

theorem fullRootInit_ok : fullRootInit.isSome := rfl

def fullRoot : State := fullRootInit.get fullRootInit_ok

/-- The scan reads the first sector behind the root directory. -/
theorem full_root_read_on :
    fullRootInit = some fullRoot ∧ ¬ ScansEnd (fun _ => 0) fullRoot := by
  have honly : ∀ j : Nat, (2 : Int) + j < 3 → (2 : Int) + j = 2 := fun j hj => by omega
  refine ⟨(Option.some_get _).symm, fun h => ?_⟩
  obtain ⟨-, i, hi, hlast⟩ := (goes_root_iff (rfl : fullRoot.cwd.startCluster = 0)).mp (scansEnd_iff_goes.mp h)
  obtain ⟨hstart, hsize⟩ : fullRoot.cwd.startSector = 2 ∧
      fullRoot.da.rootDirStartSector + fullRoot.da.rootDirNumSectors = 3 := by
    decide +kernel
  rw [hstart, hsize] at hi
  have hsector : fullRoot.cwd.startSector + (i / 16 : Nat) = 2 := by
    rw [hstart]
    exact honly _ hi
  rw [hsector] at hlast
  have hdisk : fullRoot.disk = fullRootCard := rfl
  rw [IsLast, hdisk, fullRootCard, if_pos rfl] at hlast
  exact absurd hlast (by decide)

end Hplip.Pcard
