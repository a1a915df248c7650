import Hplip.Lib.Loop
import Hplip.Lib.Slice
import Mathlib.Logic.Function.Basic

/-!
# FAT12 and FAT16 volumes of a photo card (fat.c, fat.h)

The file allocation table is read once and kept as 16-bit entries; a FAT12 table is
widened for that, and narrowed again when the sectors that have changed are written
back. The state is what the file keeps in its four static objects, and the card.

Reads and writes of the card succeed, and so does `malloc`, whose blocks hold what the
heap held. An index outside the table that is kept gets a call stuck.
-/

namespace Hplip.Pcard

open Loop

/-! ## The card -/

/-- The bytes reached through a `uint8_t *`. -/
abbrev Bytes := Nat → UInt8

abbrev Disk := Int → Bytes

/-- `FAT_HARDSECT`. -/
abbrev hardSect : Nat := 512

/-- `FAT_BLKSIZE`. -/
abbrev blkSize : Nat := 3

def readSector (disk : Disk) (sector : Int) : Bytes := fun k =>
  disk (sector + (k / hardSect : Nat)) (k % hardSect)

def writeSector (disk : Disk) (sector : Int) (nsector : Nat) (buf : Bytes) : Disk :=
  fun s k =>
    if sector ≤ s ∧ s < sector + nsector ∧ k < hardSect then
      buf ((s - sector).toNat * hardSect + k)
    else disk s k

/-- The loop of `readsect` over blocks, from sector `i` on. -/
def readBlocks (disk : Disk) (sector : Int) : Nat → Nat → Nat → Bytes → Bytes
  | 0, _, _, buf => buf
  | fuel + 1, i, len, buf =>
    if len = 0 then buf
    else
      let n := min len blkSize
      readBlocks disk sector fuel (i + n) (len - n)
        (blit buf (i * hardSect) (readSector disk (sector + i)) (n * hardSect))

def readsect (disk : Disk) (sector : Int) (nsector : Nat) (buf : Bytes) : Bytes :=
  readBlocks disk sector nsector 0 nsector buf

/-- The loop of `writesect` over blocks, from sector `i` on. -/
def writeBlocks (sector : Int) (buf : Bytes) : Nat → Nat → Nat → Disk → Disk
  | 0, _, _, disk => disk
  | fuel + 1, i, len, disk =>
    if len = 0 then disk
    else
      let n := min len blkSize
      writeBlocks sector buf fuel (i + n) (len - n)
        (writeSector disk (sector + i) n fun k => buf (i * hardSect + k))

def writesect (disk : Disk) (sector : Int) (nsector : Nat) (buf : Bytes) : Disk :=
  writeBlocks sector buf nsector 0 nsector disk

/-! ## Static objects -/

/-- The fields of `FAT_BOOT_SECTOR` that are read. -/
structure FatBootSector where
  bytesPerSector : Nat
  sectorsPerCluster : Nat
  reservedSectors : Nat
  fats : Nat
  rootEntries : Nat
  sectorsPerFat : Nat
  systemID : List UInt8

/-- `DISK_ATTRIBUTES`; `fat` is read as 16-bit entries. -/
structure DiskAttributes where
  fatStartSector : Int
  dataStartSector : Int
  rootDirStartSector : Int
  rootDirNumSectors : Nat
  fat : Nat → UInt16
  fatSize : Nat
  fat12 : Bytes
  fat12Size : Nat
  fat16 : Bytes
  writeProtect : Bool

structure CurrentWorkingDirectory where
  name : List UInt8
  startCluster : Nat
  startSector : Int
  currSector : Int
  numEntries : Nat

/-- `CURRENT_FILE_ATTRIBUTES`, less what no function sets. -/
structure CurrentFileAttributes where
  name : List UInt8
  attr : UInt8
  startCluster : Nat
  currCluster : Nat
  size : Nat
  currSectorNumInCluster : Nat
  dirSectorNum : Int
  dirEntryNum : Nat

structure State where
  disk : Disk
  bpb : FatBootSector
  da : DiskAttributes
  cwd : CurrentWorkingDirectory
  fa : CurrentFileAttributes

/-- `strcmp (bpb.SystemID, "FAT12") == 0`. -/
def FatBootSector.IsFat12 (bpb : FatBootSector) : Prop :=
  bpb.systemID = [0x46, 0x41, 0x54, 0x31, 0x32]

instance (bpb : FatBootSector) : Decidable bpb.IsFat12 := by
  unfold FatBootSector.IsFat12
  infer_instance

def DiskAttributes.entries (da : DiskAttributes) : Nat := da.fatSize / 2

/-! ## The table -/

def word (m : Bytes) (k : Nat) : Nat := (m k).toNat + 256 * (m (k + 1)).toNat

/-- Where `ConvertFat12to16` and `ConvertFat16to12` are: the pointer `p12`, and what
was written. -/
structure Conversion (α : Type) where
  p12 : Nat
  out : Nat → α

/-- One round of `ConvertFat12to16`. -/
def widenStep (src : Bytes) (c : Conversion UInt16) (i : Nat) : Conversion UInt16 :=
  if i % 2 = 1 then
    { p12 := c.p12 + 2
      out := Function.update c.out i (UInt16.ofNat (word src c.p12 / 16)) }
  else
    { p12 := c.p12 + 1
      out := Function.update c.out i (UInt16.ofNat (word src c.p12 % 4096)) }

def convertFat12to16 (dest : Nat → UInt16) (src : Bytes) (maxentry : Nat) : Nat → UInt16 :=
  ((List.range maxentry).foldl (widenStep src) ⟨0, dest⟩).out

/-- One round of `ConvertFat16to12`. -/
def narrowStep (src : Nat → UInt16) (c : Conversion UInt8) (i : Nat) : Conversion UInt8 :=
  if i % 2 = 1 then
    { p12 := c.p12 + 1
      out := Function.update c.out c.p12 (UInt8.ofNat ((src i).toNat / 16)) }
  else
    let v := (src i).toNat ||| ((src (i + 1)).toNat <<< 12)
    { p12 := c.p12 + 2
      out := Function.update (Function.update c.out c.p12 (UInt8.ofNat v)) (c.p12 + 1)
        (UInt8.ofNat (v / 256)) }

def convertFat16to12 (dest : Bytes) (src : Nat → UInt16) (maxentry : Nat) : Bytes :=
  ((List.range maxentry).foldl (narrowStep src) ⟨0, dest⟩).out

/-- `Fat12Size / 1.5`, as an integer. -/
def entries12 (fat12Size : Nat) : Nat := fat12Size * 2 / 3

def bytesOf (fat : Nat → UInt16) : Bytes := fun k =>
  if k % 2 = 0 then UInt8.ofNat (fat (k / 2)).toNat else UInt8.ofNat ((fat (k / 2)).toNat / 256)

/-- `memcmp (p + total, q + total, FAT_HARDSECT) != 0`, of sector `i`. -/
def Differs (p q : Bytes) (i : Nat) : Prop :=
  slice p (i * hardSect) hardSect ≠ slice q (i * hardSect) hardSect

instance (p q : Bytes) (i : Nat) : Decidable (Differs p q i) := by
  unfold Differs
  infer_instance

/-- The bytes that `UpdateFat` compares and writes, and those that it compares with;
`fresh` is what `malloc` gives it. -/
def updated (fresh : Bytes) (st : State) : Bytes × Bytes :=
  if st.bpb.IsFat12 then
    (convertFat16to12 fresh st.da.fat (entries12 st.da.fat12Size), st.da.fat12)
  else (bytesOf st.da.fat, st.da.fat16)

/-- The sectors that `UpdateFat` writes, counted from the start of the table. -/
def writtenSectors (fresh : Bytes) (st : State) : List Nat :=
  (List.range st.bpb.sectorsPerFat).filter fun i =>
    Differs (updated fresh st).1 (updated fresh st).2 i

def updateFat (fresh : Bytes) (st : State) : State :=
  { st with
    disk := (writtenSectors fresh st).foldl (fun disk (i : Nat) =>
      writesect disk (st.da.fatStartSector + i) 1 fun k =>
        (updated fresh st).1 (i * hardSect + k)) st.disk }

/-! ## The current directory -/

def rootSetCWD (st : State) : State :=
  { st with cwd :=
    { name := [0x2F]
      startSector := st.da.rootDirStartSector
      currSector := st.da.rootDirStartSector
      numEntries := st.bpb.rootEntries
      startCluster := 0 } }

def convertClusterToSector (st : State) (cluster : Nat) : Int :=
  ((cluster : Int) - 2) * st.bpb.sectorsPerCluster + st.da.dataStartSector

/-- `GetNextCluster`, of a cluster in the table. -/
def getNextCluster (st : State) (cluster : Nat) : Option Nat := do
  check (cluster < st.da.entries)
  some (st.da.fat cluster).toNat

/-- `for (i = 0; i < n && cluster < 0xfff7 && cluster; i++)`. -/
def walk (st : State) : Nat → Nat → Option Nat
  | 0, cluster => some cluster
  | n + 1, cluster =>
    if cluster < 0xfff7 ∧ cluster ≠ 0 then do
      let next ← getNextCluster st cluster
      walk st n next
    else some cluster

/-- What `LoadFileInCWD` answers. -/
inductive Loaded
  | file
  | endOfDir
  | deleted
  | longFilename
  deriving DecidableEq, Repr

/-- The fields of `FAT_DIRECTORY` that are read, of entry `fn` of a sector. -/
structure FatDirectory where
  name : List UInt8
  ext : List UInt8
  attributes : UInt8
  startCluster : Nat
  size : Nat

def directoryEntry (buf : Bytes) (fn : Nat) : FatDirectory where
  name := slice buf (32 * fn) 8
  ext := slice buf (32 * fn + 8) 3
  attributes := buf (32 * fn + 11)
  startCluster := word buf (32 * fn + 26)
  size := word buf (32 * fn + 28) + 65536 * word buf (32 * fn + 30)

def fileName (pde : FatDirectory) : List UInt8 :=
  let name := pde.name.takeWhile fun c => c ≠ 0 ∧ c ≠ 0x20
  let ext :=
    if pde.ext.head? = some 0 ∨ pde.ext.head? = some 0x20 then []
    else 0x2E :: pde.ext.takeWhile fun c => c ≠ 0x20
  (name ++ ext).takeWhile fun c => c ≠ 0

/-- The sector of an entry of the current directory, if the directory goes that far. -/
def directorySector (st : State) (filenumber : Nat) : Option (Option Int) :=
  let sector := filenumber / 16
  if st.cwd.startCluster ≠ 0 then do
    -- the division by `bpb.SectorsPerCluster`
    check (st.bpb.sectorsPerCluster ≠ 0)
    let clusterCnt := sector / st.bpb.sectorsPerCluster
    let cluster ← walk st clusterCnt st.cwd.startCluster
    if cluster ≥ 0xfff7 ∨ cluster = 0 then some none
    else some (some (convertClusterToSector st cluster
      + (sector - clusterCnt * st.bpb.sectorsPerCluster : Nat)))
  else if filenumber > st.da.rootDirNumSectors * 16 then some none
  else some (some (st.cwd.startSector + sector))

/-- `LoadFileInCWD`; `dummy` is what the buffer on the stack held. -/
def loadFileInCWD (dummy : Bytes) (st : State) (filenumber : Nat) : Option (Loaded × State) := do
  match ← directorySector st filenumber with
  | none => some (.endOfDir, st)
  | some sector =>
    let fn := filenumber % 16
    let st := { st with
      cwd := { st.cwd with currSector := sector }
      fa := { st.fa with dirEntryNum := fn, dirSectorNum := sector } }
    let buf := readsect st.disk sector 1 dummy
    if buf (32 * fn) = 0 then some (.endOfDir, st)
    else if buf (32 * fn) = 0xe5 then some (.deleted, st)
    else
      let pde := directoryEntry buf fn
      let st := { st with fa := { st.fa with name := fileName pde, attr := pde.attributes } }
      if pde.attributes = 0xf then some (.longFilename, st)
      else some (.file,
        { st with fa := { st.fa with
          startCluster := pde.startCluster
          currCluster := pde.startCluster
          size := pde.size
          currSectorNumInCluster := 0 } })

def toLower (c : UInt8) : UInt8 := if 0x41 ≤ c ∧ c ≤ 0x5A then c + 0x20 else c

/-- `strcasecmp (a, b) == 0`. -/
def SameName (a b : List UInt8) : Prop := a.map toLower = b.map toLower

instance (a b : List UInt8) : Decidable (SameName a b) := by
  unfold SameName
  infer_instance

/-- `LoadFileWithName`, from an entry on; the flag says that the file was found. -/
def loadFileWithName (dummy : Bytes) (filename : List UInt8) :
    Nat → State → Nat → Option (Bool × State)
  | 0, _, _ => none
  | fuel + 1, st, filenum => do
    match ← loadFileInCWD dummy st filenum with
    | (.endOfDir, st) => some (false, st)
    | (.file, st) =>
      if SameName st.fa.name filename then some (true, st)
      else loadFileWithName dummy filename fuel st (filenum + 1)
    | (.deleted, st) => loadFileWithName dummy filename fuel st (filenum + 1)
    | (.longFilename, st) => loadFileWithName dummy filename fuel st (filenum + 1)

/-! ## Entry points -/

/-- `FatInit`; `heap` and `heapFat` are what the new blocks held. -/
def fatInit (disk : Disk) (heap : Bytes) (heapFat : Nat → UInt16) (cwd : CurrentWorkingDirectory)
    (fa : CurrentFileAttributes) : Option State :=
  let boot := readsect disk 0 1 heap
  let bpb : FatBootSector :=
    { bytesPerSector := word boot 11
      sectorsPerCluster := (boot 13).toNat
      reservedSectors := word boot 14
      fats := (boot 16).toNat
      rootEntries := word boot 17
      sectorsPerFat := word boot 22
      -- `bpb.SystemID[5] = 0`
      systemID := (slice boot 54 5).takeWhile fun c => c ≠ 0 }
  if bpb.bytesPerSector ≠ hardSect then none
  else
    let fatStartSector : Int := bpb.reservedSectors
    let rootDirNumSectors := (bpb.rootEntries * 32 + (bpb.bytesPerSector - 1)) / bpb.bytesPerSector
    let rootDirStartSector : Int :=
      fatStartSector + (bpb.fats : Int) * Int.bmod bpb.sectorsPerFat 65536
    let fatsize := bpb.sectorsPerFat * hardSect
    let table := readsect disk fatStartSector bpb.sectorsPerFat heap
    let da : DiskAttributes :=
      { fatStartSector := fatStartSector
        dataStartSector := rootDirStartSector + rootDirNumSectors
        rootDirStartSector := rootDirStartSector
        rootDirNumSectors := rootDirNumSectors
        fat :=
          if bpb.IsFat12 then convertFat12to16 heapFat table (entries12 fatsize)
          else fun i => if i < fatsize / 2 then UInt16.ofNat (word table (2 * i)) else heapFat i
        -- `Fat12Size / 1.5 * 2`
        fatSize := if bpb.IsFat12 then fatsize * 4 / 3 else fatsize
        fat12 := table
        fat12Size := fatsize
        fat16 := table
        writeProtect := false }
    some (rootSetCWD { disk := disk, bpb := bpb, da := da, cwd := cwd, fa := fa })

/-- `FatSetCWD`; the flag says that the directory was set. -/
def fatSetCWD (dummy : Bytes) (fuel : Nat) (dir : List UInt8) (st : State) :
    Option (Bool × State) :=
  if dir.head? = some 0x2E then some (true, st)
  else if dir.head? = some 0x2F then some (true, rootSetCWD st)
  else if st.cwd.name = dir then some (true, st)
  else do
    let (found, st) ← loadFileWithName dummy dir fuel st 0
    if ¬ found then some (false, st)
    else if st.fa.attr &&& 0x10 = 0 then some (false, st)
    else
      let sector := convertClusterToSector st st.fa.startCluster
      some (true, { st with cwd := { st.cwd with
        name := st.fa.name
        startSector := sector
        currSector := sector
        startCluster := st.fa.startCluster } })

/-- One round of `while ((cluster <= 0xFFF8) && (cluster != 0x0000))`: it leaves with the
table, or with nothing for an index outside of it. -/
def freeStep (entries : Nat) (s : Nat × (Nat → UInt16)) :
    Option ((Nat × (Nat → UInt16)) ⊕ Option (Nat → UInt16)) :=
  if s.1 ≤ 0xFFF8 ∧ s.1 ≠ 0 then
    if s.1 < entries then some (.inl ((s.2 s.1).toNat, Function.update s.2 s.1 0))
    else some (.inr none)
  else some (.inr (some s.2))

/-- The loop of `FatDeleteFile`; it meets an entry at most once before it has freed it. -/
def freeClusters (entries cluster : Nat) (fat : Nat → UInt16) : Option (Option (Nat → UInt16)) :=
  loop (freeStep entries) (entries + 2) (cluster, fat)

/-- `FatDeleteFile`; the flag says that the file was deleted. -/
def fatDeleteFile (dummy fresh : Bytes) (fuel : Nat) (name : List UInt8) (st : State) :
    Option (Bool × State) := do
  let (found, st) ← loadFileWithName dummy name fuel st 0
  if ¬ found then some (false, st)
  else
    match ← freeClusters st.da.entries st.fa.startCluster st.da.fat with
    | none => none
    | some fat =>
      let st := { st with da := { st.da with fat := fat } }
      let buf := readsect st.disk st.fa.dirSectorNum 1 dummy
      let buf := Function.update buf (32 * (st.fa.dirEntryNum % 16)) 0xe5
      let st := { st with disk := writesect st.disk st.fa.dirSectorNum 1 buf }
      some (true, updateFat fresh st)

end Hplip.Pcard
