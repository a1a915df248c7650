import Mathlib
import Hplip.Pcard.FatDelete

/-!
# Reading a range of a file (`FatReadFileExt`)

The function goes through the clusters of the file and copies the part of each that lies in
the range. The cluster in which the range ends is clipped to the range, but not to the file.
-/

namespace Hplip.Pcard

open Loop

/-! ## The function -/

/-- `fa.Size`, an `int`. -/
def intSize (size : Nat) : Int := if size < 2 ^ 31 then size else (size : Int) - 2 ^ 32

/-- `bpb.SectorsPerCluster * FAT_HARDSECT`. -/
def State.block (st : State) : Nat := st.bpb.sectorsPerCluster * hardSect

/-- The variables of the loop; `btotal` is the length of `out`. -/
structure ReadState where
  i : Int
  bn : Nat
  total : Int
  cluster : Nat
  out : List UInt8

def nextRound (st : State) (s : ReadState) (n : Int) (out : List UInt8) :
    Option (ReadState ⊕ List UInt8) := do
  let cluster ← getNextCluster st s.cluster
  if cluster ≥ 0xfff7 ∨ cluster = 0 then some (.inr out)
  else some (.inl
    { i := s.i + n, bn := s.bn + 1, total := s.total + n, cluster := cluster, out := out })

/-- One round; `fresh` is what the cluster buffer held. A copy that leaves the buffer, or of a
negative length, gets the call stuck. -/
def readRound (fresh : Bytes) (st : State) (offset len : Nat) (s : ReadState) :
    Option (ReadState ⊕ List UInt8) :=
  let block := st.block
  let b1 := offset / block
  let b2 := (offset + len) / block
  if s.i < intSize st.fa.size then
    let n := if intSize st.fa.size - s.i > block then (block : Int) else intSize st.fa.size - s.i
    if b1 ≤ s.bn then
      let buf := readsect st.disk (convertClusterToSector st s.cluster)
        st.bpb.sectorsPerCluster fresh
      let boff := if s.bn = b1 then offset - s.total else 0
      if s.bn ≤ b2 then do
        let blen := if s.bn = b2 then (offset + len : Nat) - s.total - boff else n - boff
        check (0 ≤ blen ∧ 0 ≤ boff ∧ boff + blen ≤ block)
        nextRound st s n (s.out ++ slice buf boff.toNat blen.toNat)
      else some (.inr s.out)
    else nextRound st s n s.out
  else some (.inr s.out)

def readLoop (fresh : Bytes) (st : State) (offset len : Nat) : Option (List UInt8) :=
  loop (readRound fresh st offset len) (st.fa.size + 2) ⟨0, 0, 0, st.fa.startCluster, []⟩

/-- `FatReadFileExt`, of an offset and a length that are not negative: the bytes that it wrote to
`outbuf`, whose number it returns. -/
def fatReadFileExt (dummy fresh : Bytes) (fuel : Nat) (name : List UInt8) (offset len : Nat)
    (st : State) : Option (List UInt8 × State) := do
  -- the divisions by `block`, and the sum of two `int`
  check (st.block ≠ 0)
  check (offset + len < 2 ^ 31)
  let (found, st) ← loadFileWithName dummy name fuel st 0
  if ¬ found then some ([], st)
  else do
    let out ← readLoop fresh st offset len
    some (out, st)

/-! ## What the file holds -/

/-- The `k`-th cluster of the chain. -/
def State.clusterAt (st : State) (k : Nat) : Nat :=
  (fun c => (st.da.fat c).toNat)^[k] st.fa.startCluster

/-- Byte `p` of the current file. -/
def State.fileByte (st : State) (p : Nat) : UInt8 :=
  readSector st.disk (convertClusterToSector st (st.clusterAt (p / st.block))) (p % st.block)

/-- The clusters hold something, and there are enough of them for the size. -/
structure WellFormed (st : State) : Prop where
  block : 0 < st.block
  clusters : ∀ k, k * st.block < st.fa.size →
    2 ≤ st.clusterAt k ∧ st.clusterAt k < 0xfff7 ∧ st.clusterAt k < st.da.entries

def fileRange (file : State) (offset len : Nat) : List UInt8 :=
  slice file.fileByte offset (min (offset + len) file.fa.size - offset)

/-- The call copies these bytes. -/
def ReadsRange (file : State) (offset len : Nat) (call : Option (List UInt8 × State)) : Prop :=
  Returns call fun r => r.1 = fileRange file offset len

/-! ## Blocks of sectors -/

theorem two_blocks {start size total k : Nat} {a b c : UInt8} (hend : start + size ≤ total)
    (hcopy : start ≤ k → b = a) :
    (if start + size ≤ k ∧ k < total then a
      else if start ≤ k ∧ k < start + size then b else c)
      = if start ≤ k ∧ k < total then a else c := by
  by_cases hlow : start ≤ k ∧ k < start + size
  · rw [if_neg (by lia), if_pos hlow, if_pos (by lia), hcopy hlow.1]
  · by_cases hhigh : start + size ≤ k ∧ k < total
    · rw [if_pos hhigh, if_pos (by lia)]
    · rw [if_neg hhigh, if_neg hlow, if_neg (by lia)]

theorem readBlocks_eq (disk : Disk) (sector : Int) {fuel i len : Nat} (buf : Bytes)
    (hfuel : len ≤ fuel) (k : Nat) :
    readBlocks disk sector fuel i len buf k =
      if i * hardSect ≤ k ∧ k < (i + len) * hardSect then readSector disk sector k else buf k := by
  induction fuel generalizing i len buf with
  | zero =>
    obtain rfl := Nat.le_zero.mp hfuel
    rw [readBlocks, if_neg (by rw [Nat.add_zero]; lia)]
  | succ fuel ih =>
    rw [readBlocks]
    by_cases hlen : len = 0
    · subst hlen
      rw [if_pos rfl, if_neg (by rw [Nat.add_zero]; lia)]
    rw [if_neg hlen]
    have hn : 0 < min len blkSize := by
      unfold blkSize
      lia
    have hle := Nat.min_le_left len blkSize
    generalize min len blkSize = n at hn hle
    rw [ih _ (by lia)]
    have hsum : i + n + (len - n) = i + len := by lia
    have hmid : (i + n) * hardSect = i * hardSect + n * hardSect := Nat.add_mul ..
    have hend : (i + n) * hardSect ≤ (i + len) * hardSect :=
      Nat.mul_le_mul_right _ (by lia)
    rw [hsum, blit]
    rw [hmid] at hend ⊢
    -- a byte of this block
    have hcopy : i * hardSect ≤ k →
        readSector disk (sector + i) (k - i * hardSect) = readSector disk sector k := by
      intro hle
      obtain ⟨j, rfl⟩ := Nat.exists_eq_add_of_le hle
      have hdiv : (i * hardSect + j) / hardSect = i + j / hardSect := by
        rw [Nat.add_comm, Nat.add_mul_div_right _ _ (by decide : 0 < hardSect), Nat.add_comm]
      have hmod : (i * hardSect + j) % hardSect = j % hardSect := by
        rw [Nat.add_comm, Nat.add_mul_mod_self_right]
      have hsector : sector + (i : Int) + (j / hardSect : Nat)
          = sector + (i + j / hardSect : Nat) := by lia
      rw [Nat.add_sub_cancel_left, readSector, readSector, hdiv, hmod, hsector]
    exact two_blocks hend hcopy

theorem readsect_eq (disk : Disk) (sector : Int) {nsector k : Nat} (buf : Bytes)
    (hk : k < nsector * hardSect) : readsect disk sector nsector buf k = readSector disk sector k := by
  rw [readsect, readBlocks_eq disk sector buf (Nat.le_refl _), Nat.zero_mul, Nat.zero_add,
    if_pos ⟨Nat.zero_le k, hk⟩]

/-! ## One round -/

section Rounds

variable {fresh : Bytes} {file : State} {offset len : Nat} {s : ReadState}

theorem clusterAt_succ (file : State) (k : Nat) :
    file.clusterAt (k + 1) = (file.da.fat (file.clusterAt k)).toNat :=
  Function.iterate_succ_apply' ..

/-- The loop is at cluster `s.bn` of the file. -/
structure AtCluster (file : State) (s : ReadState) : Prop where
  i : s.i = min (s.bn * file.block) file.fa.size
  total : s.total = s.i
  cluster : s.cluster = file.clusterAt s.bn

theorem atCluster_start (file : State) : AtCluster file ⟨0, 0, 0, file.fa.startCluster, []⟩ where
  i := by
    show (0 : Int) = min ((0 : Nat) * file.block : Nat) file.fa.size
    rw [Nat.zero_mul]
    lia
  total := rfl
  cluster := rfl

theorem AtCluster.nextRound (hw : WellFormed file) (h : AtCluster file s)
    (hin : s.bn * file.block < file.fa.size) {n : Int}
    (hn : s.i + n = min ((s.bn + 1) * file.block) file.fa.size) (out : List UInt8) :
    Returns (Pcard.nextRound file s n out) fun r =>
      Sum.elim (fun s' => AtCluster file s' ∧ s'.bn = s.bn + 1 ∧ s'.out = out)
        (fun out' => out' = out ∧ file.fa.size ≤ (s.bn + 1) * file.block) r := by
  obtain ⟨-, -, hentry⟩ := hw.clusters s.bn hin
  rw [← h.cluster] at hentry
  unfold Pcard.nextRound getNextCluster
  refine Returns.bind (P := fun c => c = file.clusterAt (s.bn + 1)) ?_ ?_
  · refine Returns.check hentry (Returns.pure ?_)
    rw [clusterAt_succ, h.cluster]
  · rintro _ rfl
    refine Returns.ite (fun hlast => Returns.pure ⟨rfl, ?_⟩) fun _ => Returns.pure ⟨?_, rfl, rfl⟩
    · -- the chain would go on if the file did
      by_contra hmore
      obtain ⟨hlow, hhigh, -⟩ := hw.clusters (s.bn + 1) (by lia)
      lia
    · refine ⟨?_, ?_, rfl⟩
      · exact_mod_cast hn
      · show s.total + n = s.i + n
        rw [h.total]

theorem slice_cluster (hb : 0 < file.block) (h : AtCluster file s) {j k : Nat}
    (hjk : j + k ≤ file.block) :
    slice (readsect file.disk (convertClusterToSector file s.cluster)
      file.bpb.sectorsPerCluster fresh) j k = slice file.fileByte (s.bn * file.block + j) k := by
  refine slice_congr fun i hi => ?_
  have hlt : j + i < file.block := by omega
  have hdiv : (s.bn * file.block + j + i) / file.block = s.bn := by
    rw [Nat.add_assoc, Nat.add_comm, Nat.add_mul_div_right _ _ hb, Nat.div_eq_of_lt hlt,
      Nat.zero_add]
  have hmod : (s.bn * file.block + j + i) % file.block = j + i := by
    rw [Nat.add_assoc, Nat.add_comm, Nat.add_mul_mod_self_right, Nat.mod_eq_of_lt hlt]
  rw [readsect_eq _ _ _ hlt, State.fileByte, hdiv, hmod, h.cluster]

/-- Where the copying ends: in the range's last cluster it is not clipped to the file. -/
def copyEnd (file : State) (offset len : Nat) : Nat :=
  if (offset + len) / file.block * file.block < file.fa.size then offset + len
  else file.fa.size

/-- The range begins behind the end of the file, in its last cluster, and goes further. -/
def BeginsBehind (file : State) (offset len : Nat) : Prop :=
  offset / file.block * file.block < file.fa.size ∧ file.fa.size < offset ∧
    offset / file.block < (offset + len) / file.block

/-- What was copied before cluster `bn`. -/
def Copied (file : State) (offset len : Nat) (s : ReadState) : Prop :=
  s.out = slice file.fileByte offset (min (s.bn * file.block) (copyEnd file offset len) - offset)

theorem div_bounds {B : Nat} (hB : 0 < B) (n : Nat) : n / B * B ≤ n ∧ n < n / B * B + B := by
  have hsum := Nat.div_add_mod n B
  have hmod := Nat.mod_lt n hB
  rw [Nat.mul_comm] at hsum
  lia

theorem intSize_of_lt {size : Nat} (h : size < 2 ^ 31) : intSize size = size := if_pos h

theorem copied_all (hb : 0 < file.block)
    (h : file.fa.size ≤ s.bn * file.block ∨ (offset + len) / file.block < s.bn)
    (hout : Copied file offset len s) :
    s.out = slice file.fileByte offset (copyEnd file offset len - offset) := by
  obtain ⟨hlow, hhigh⟩ := div_bounds hb (offset + len)
  have hend : copyEnd file offset len ≤ s.bn * file.block := by
    rw [copyEnd]
    rcases h with hsize | hlast
    · split
      · rename_i hin
        have hbn : (offset + len) / file.block < s.bn :=
          Nat.lt_of_mul_lt_mul_right (Nat.lt_of_lt_of_le hin hsize)
        have hmul := Nat.mul_le_mul_right file.block (Nat.succ_le_of_lt hbn)
        rw [Nat.succ_mul] at hmul
        lia
      · exact hsize
    · have hmul := Nat.mul_le_mul_right file.block (Nat.succ_le_of_lt hlast)
      rw [Nat.succ_mul] at hmul
      split
      · lia
      · lia
  rw [hout, Nat.min_eq_right hend]

theorem copied_append (hout : Copied file offset len s) {j k : Nat}
    (hstart : offset + (min (s.bn * file.block) (copyEnd file offset len) - offset)
      = s.bn * file.block + j)
    (hend : s.bn * file.block + j + k
      = max offset (min ((s.bn + 1) * file.block) (copyEnd file offset len))) :
    s.out ++ slice file.fileByte (s.bn * file.block + j) k
      = slice file.fileByte offset
        (min ((s.bn + 1) * file.block) (copyEnd file offset len) - offset) := by
  have hsplit : min ((s.bn + 1) * file.block) (copyEnd file offset len) - offset
      = (min (s.bn * file.block) (copyEnd file offset len) - offset) + k := by lia
  rw [hsplit, slice_add, hstart, hout]

theorem min_copyEnd (hb : 0 < file.block) {b : Nat} (hlast : b < (offset + len) / file.block) :
    min ((b + 1) * file.block) (copyEnd file offset len)
      = min ((b + 1) * file.block) file.fa.size := by
  rw [copyEnd]
  split
  · rename_i hin
    have hfile := Nat.lt_of_le_of_lt (Nat.mul_le_mul_right file.block (Nat.succ_le_of_lt hlast)) hin
    rw [Nat.min_eq_left ((Nat.le_div_iff_mul_le hb).mp hlast), Nat.min_eq_left (Nat.le_of_lt hfile)]
  · rfl

theorem copy_start {c o : Nat} {P : Prop} [Decidable P] (hyes : P → c ≤ o) (hno : ¬ P → o ≤ c) :
    (c : Int) + (if P then (o : Int) - c else 0) = max o c := by
  by_cases h : P
  · rw [if_pos h, Nat.max_eq_left (hyes h)]
    omega
  · rw [if_neg h, Nat.max_eq_right (hno h), Int.add_zero]

theorem copy_stop (hb : 0 < file.block) (hbegins : ¬ BeginsBehind file offset len) {b : Nat}
    (hin : b * file.block < file.fa.size) (hfirst : offset / file.block ≤ b)
    (hlast : b ≤ (offset + len) / file.block) {n boff : Int}
    (hn : (b * file.block : Nat) + n = min ((b + 1) * file.block) file.fa.size) :
    (b * file.block : Nat) + boff + (if b = (offset + len) / file.block
        then ((offset + len : Nat) : Int) - (b * file.block : Nat) - boff else n - boff)
      = max offset (min ((b + 1) * file.block) (copyEnd file offset len)) := by
  by_cases heq : b = (offset + len) / file.block
  · have hend : copyEnd file offset len = offset + len := by
      rw [copyEnd, ← heq, if_pos hin]
    have hlt : offset + len < (b + 1) * file.block :=
      (Nat.div_lt_iff_lt_mul hb).mp (Nat.lt_succ_of_le heq.ge)
    rw [if_pos heq, hend, Nat.min_eq_right (Nat.le_of_lt hlt), Nat.max_eq_right (Nat.le_add_right ..)]
    omega
  · rw [if_neg heq, min_copyEnd hb (Nat.lt_of_le_of_ne hlast heq)]
    have hcluster : offset ≤ (b + 1) * file.block :=
      Nat.le_of_lt ((Nat.div_lt_iff_lt_mul hb).mp (Nat.lt_succ_of_le hfirst))
    have hfile : offset ≤ file.fa.size := by
      by_contra hshort
      have hsame : offset / file.block = b := Nat.le_antisymm hfirst
        ((Nat.le_div_iff_mul_le hb).mpr (Nat.le_of_lt (Nat.lt_trans hin (Nat.lt_of_not_le hshort))))
      refine hbegins ⟨hsame ▸ hin, Nat.lt_of_not_le hshort, ?_⟩
      exact hsame ▸ Nat.lt_of_le_of_ne hlast heq
    rw [Nat.max_eq_right (Nat.le_min.mpr ⟨hcluster, hfile⟩)]
    omega

theorem le_copyEnd (hb : 0 < file.block) {b : Nat} (hin : b * file.block < file.fa.size)
    (hlast : b ≤ (offset + len) / file.block) : b * file.block ≤ copyEnd file offset len := by
  rw [copyEnd]
  split
  · exact (Nat.le_div_iff_mul_le hb).mp hlast
  · exact Nat.le_of_lt hin

theorem readRound_spec (hw : WellFormed file) (hsize : file.fa.size < 2 ^ 31)
    (hbegins : ¬ BeginsBehind file offset len) (h : AtCluster file s)
    (hout : Copied file offset len s) :
    Returns (readRound fresh file offset len s) fun r =>
      Sum.elim (fun s' => (AtCluster file s' ∧ Copied file offset len s') ∧
          file.fa.size + 1 - s'.bn < file.fa.size + 1 - s.bn)
        (fun out => out = slice file.fileByte offset (copyEnd file offset len - offset)) r := by
  have hb := hw.block
  unfold readRound
  rw [intSize_of_lt hsize]
  dsimp only
  refine Returns.ite (fun hgo => ?_) fun hstop => Returns.pure ?_
  swap
  · have hi := h.i
    exact copied_all hb (.inl (by lia)) hout
  have hin : s.bn * file.block < file.fa.size := by
    have hi := h.i
    lia
  have hi : s.i = (s.bn * file.block : Nat) := by rw [h.i, Nat.min_eq_left hin.le]
  have hbn : s.bn < file.fa.size :=
    Nat.lt_of_le_of_lt (Nat.le_mul_of_pos_right _ hb) hin
  rw [h.total, hi]
  generalize hn : (if (file.fa.size : Int) - (s.bn * file.block : Nat) > file.block
    then (file.block : Int) else file.fa.size - (s.bn * file.block : Nat)) = n
  have hnext : (s.bn * file.block : Nat) + n = min ((s.bn + 1) * file.block) file.fa.size := by
    rw [Nat.succ_mul, ← hn]
    clear hn hin hi hgo
    split <;> lia
  -- what a round leaves when it goes on
  have hround : ∀ out, out = slice file.fileByte offset
      (min ((s.bn + 1) * file.block) (copyEnd file offset len) - offset) →
      Returns (nextRound file s n out) fun r =>
        Sum.elim (fun s' => (AtCluster file s' ∧ Copied file offset len s') ∧
            file.fa.size + 1 - s'.bn < file.fa.size + 1 - s.bn)
          (fun out => out = slice file.fileByte offset (copyEnd file offset len - offset)) r := by
    intro out hout'
    refine (h.nextRound hw hin (by rw [hi]; exact hnext) out).mono ?_
    rintro (s' | out') hr
    · obtain ⟨hat, hbn', rfl⟩ := hr
      refine ⟨⟨hat, ?_⟩, ?_⟩
      · rw [Copied, hbn', hout']
      · rw [hbn']
        exact Nat.sub_lt_sub_left (Nat.lt_succ_of_lt hbn) (Nat.lt_succ_self _)
    · obtain ⟨rfl, hlast⟩ := hr
      have hcopied : Copied file offset len { s with bn := s.bn + 1, out := out' } := hout'
      exact copied_all hb (.inl hlast) hcopied
  refine Returns.ite (fun hfirst => ?_) fun hbefore => hround s.out ?_
  swap
  · -- a cluster before the range
    have hle : (s.bn + 1) * file.block ≤ offset :=
      (Nat.le_div_iff_mul_le hb).mp (Nat.lt_of_not_le hbefore)
    have hle' : s.bn * file.block ≤ offset :=
      Nat.le_trans (Nat.mul_le_mul_right _ (Nat.le_succ _)) hle
    rw [hout, Nat.sub_eq_zero_of_le (Nat.le_trans (Nat.min_le_left ..) hle),
      Nat.sub_eq_zero_of_le (Nat.le_trans (Nat.min_le_left ..) hle')]
  refine Returns.ite (fun hlast => ?_) fun hbehind => Returns.pure ?_
  swap
  · exact copied_all hb (.inr (Nat.lt_of_not_le hbehind)) hout
  have hstart := @copy_start (s.bn * file.block) offset (s.bn = offset / file.block) _
    (fun heq => (Nat.le_div_iff_mul_le hb).mp heq.le)
    (fun hne => Nat.le_of_lt ((Nat.div_lt_iff_lt_mul hb).mp (Nat.lt_of_le_of_ne hfirst (Ne.symm hne))))
  generalize (if s.bn = offset / file.block then (offset : Int) - (s.bn * file.block : Nat)
    else 0) = boff at hstart ⊢
  -- the part of the cluster that is copied, from `bn * block + boff` on
  have hstop := @copy_stop _ _ _ hb hbegins _ hin hfirst hlast n boff hnext
  generalize (if s.bn = (offset + len) / file.block
    then ((offset + len : Nat) : Int) - (s.bn * file.block : Nat) - boff else n - boff) = blen
    at hstop ⊢
  have hpast := le_copyEnd hb hin hlast
  have hcluster : offset < (s.bn + 1) * file.block :=
    (Nat.div_lt_iff_lt_mul hb).mp (Nat.lt_succ_of_le hfirst)
  have hcheck : 0 ≤ blen ∧ 0 ≤ boff ∧ boff + blen ≤ file.block := by
    clear hround hout hn hnext hgo hi hbn hin hfirst hlast
    rw [Nat.succ_mul] at hstop hcluster
    exact ⟨by lia, by lia, by lia⟩
  refine Returns.check hcheck (hround _ ?_)
  obtain ⟨j, rfl⟩ := Int.eq_ofNat_of_zero_le hcheck.2.1
  obtain ⟨k, rfl⟩ := Int.eq_ofNat_of_zero_le hcheck.1
  rw [Int.toNat_natCast, Int.toNat_natCast, slice_cluster hb h (Int.ofNat_le.mp hcheck.2.2)]
  refine copied_append hout ?_ ?_
  · rw [Nat.min_eq_left hpast]
    clear hround hn hnext hgo hi hstop hcheck
    lia
  · exact Int.ofNat_inj.mp hstop

theorem readRound_stuck (hw : WellFormed file) (hsize : file.fa.size < 2 ^ 31)
    (hbegins : BeginsBehind file offset len) (h : AtCluster file s)
    (hbn : s.bn ≤ offset / file.block) {r : ReadState ⊕ List UInt8}
    (hr : readRound fresh file offset len s = some r) :
    Sum.elim (fun s' => AtCluster file s' ∧ s'.bn ≤ offset / file.block) (fun _ => False) r := by
  obtain ⟨hcluster, hbehind, hfurther⟩ := hbegins
  have hb := hw.block
  have hi := h.i
  have htotal := h.total
  have hsucc : (s.bn + 1) * file.block = s.bn * file.block + file.block := Nat.succ_mul ..
  have hmul := Nat.mul_le_mul_right file.block hbn
  have hin : s.bn * file.block < file.fa.size := by lia
  unfold readRound at hr
  rw [intSize_of_lt hsize] at hr
  dsimp only at hr
  rw [if_pos (by lia)] at hr
  rcases hbn.lt_or_eq with hlt | heq
  · -- before that cluster the loop goes on
    rw [if_neg (by lia)] at hr
    have hmul' := Nat.mul_le_mul_right file.block (Nat.succ_le_of_lt hlt)
    have hround := (h.nextRound hw hin (n := if (file.fa.size : Int) - s.i > file.block
      then (file.block : Int) else file.fa.size - s.i) (by split <;> lia) s.out).of_eq_some hr
    rcases r with s' | out
    · exact ⟨hround.1, by rw [hround.2.1]; exact hlt⟩
    · have hlast := hround.2
      rw [Nat.succ_mul] at hmul'
      lia
  · -- in it the length to copy is negative
    rw [if_pos (by lia), if_pos (by lia), if_pos heq, if_neg (by lia)] at hr
    obtain ⟨hcheck, -⟩ := of_check hr
    rw [heq] at hi
    have hpos := hcheck.1
    split at hpos
    · lia
    · lia

end Rounds

/-! ## The whole read -/

section Whole

variable {dummy fresh : Bytes} {fuel : Nat} {name : List UInt8} {st file : State}
  {offset len : Nat}

variable (fresh) in
theorem readLoop_spec (hw : WellFormed file) (hsize : file.fa.size < 2 ^ 31)
    (hbegins : ¬ BeginsBehind file offset len) :
    Returns (readLoop fresh file offset len) fun out =>
      out = slice file.fileByte offset (copyEnd file offset len - offset) := by
  unfold readLoop
  refine Returns.loop (fun s => AtCluster file s ∧ Copied file offset len s)
    (fun s => file.fa.size + 1 - s.bn)
    (fun s hs => readRound_spec hw hsize hbegins hs.1 hs.2) (file.fa.size + 2) _
    ⟨atCluster_start file, ?_⟩ ?_
  · show [] = slice file.fileByte offset (min (0 * file.block) _ - offset)
    rw [Nat.zero_mul, Nat.zero_min, Nat.zero_sub, slice_zero]
  · show file.fa.size + 1 - 0 < file.fa.size + 2
    lia

theorem readLoop_stuck (hw : WellFormed file) (hsize : file.fa.size < 2 ^ 31)
    (hbegins : BeginsBehind file offset len) : readLoop fresh file offset len = none := by
  rcases hrun : readLoop fresh file offset len with _ | out
  · rfl
  · exact (loop_exits (fun s : ReadState => AtCluster file s ∧ s.bn ≤ offset / file.block)
      (fun _ : List UInt8 => False)
      (fun s r hs hr => readRound_stuck hw hsize hbegins hs.1 hs.2 hr)
      ⟨atCluster_start file, Nat.zero_le _⟩ hrun).elim

theorem readLoop_huge (hsize : ¬ file.fa.size < 2 ^ 31) (hword : file.fa.size < 2 ^ 32) :
    readLoop fresh file offset len = some [] := by
  have hneg : ¬ (0 : Int) < intSize file.fa.size := by
    rw [intSize, if_neg hsize]
    omega
  unfold readLoop
  rw [loop]
  unfold readRound
  rw [if_neg hneg]
  rfl

/-- The ranges that are read as they should be: empty ones, those in the file, and those that go
over its end into a later cluster, but do not begin behind it in its last one. -/
def RangeFits (file : State) (offset len : Nat) : Prop :=
  len = 0 ∨ file.fa.size < 2 ^ 31 ∧ offset + len < 2 ^ 31 ∧
    (offset + len ≤ file.fa.size ∨
      file.fa.size ≤ (offset + len) / file.block * file.block ∧
        (offset ≤ file.fa.size ∨ file.fa.size ≤ offset / file.block * file.block))

theorem fatReadFileExt_found (hfound : loadFileWithName dummy name fuel st 0 = some (true, file))
    (hblock : st.block ≠ 0) (hsum : offset + len < 2 ^ 31) :
    fatReadFileExt dummy fresh fuel name offset len st
      = (readLoop fresh file offset len).map fun out => (out, file) := by
  unfold fatReadFileExt
  rw [check_pos hblock, check_pos hsum, hfound]
  show (readLoop fresh file offset len).bind _ = _
  rcases readLoop fresh file offset len with _ | out
  · rfl
  · rfl

theorem not_readsRange_none : ¬ ReadsRange file offset len none := by
  rintro ⟨r, hr, -⟩
  cases hr

theorem readsRange_slice_iff {n : Nat} :
    ReadsRange file offset len (some (slice file.fileByte offset n, file)) ↔
      n = min (offset + len) file.fa.size - offset := by
  constructor
  · rintro ⟨r, hr, hread⟩
    obtain rfl := Option.some.inj hr
    have hlen := congrArg List.length hread
    rwa [fileRange, slice_length, slice_length] at hlen
  · rintro rfl
    exact Returns.pure rfl

theorem loadFileInCWD_size {answer : Loaded} {filenumber : Nat}
    (h : loadFileInCWD dummy st filenumber = some (answer, file)) (hfile : answer = .file) :
    file.fa.size < 2 ^ 32 := by
  subst hfile
  unfold loadFileInCWD at h
  obtain ⟨sector, -, h⟩ := Option.bind_eq_some_iff.mp h
  cases sector with
  | none => exact absurd h (by simp)
  | some sector =>
    dsimp only at h
    split at h
    · exact absurd h (by simp)
    split at h
    · exact absurd h (by simp)
    split at h
    · exact absurd h (by simp)
    · obtain ⟨-, rfl⟩ := Prod.mk.inj (Option.some.inj h)
      have hword : ∀ (m : Bytes) (k : Nat), word m k < 65536 := fun m k => by
        have h₁ := (m k).toNat_lt
        have h₂ := (m (k + 1)).toNat_lt
        rw [word]
        lia
      show word _ (32 * (filenumber % 16) + 28) + 65536 * word _ (32 * (filenumber % 16) + 30) < _
      have h₁ := hword (readsect st.disk sector 1 dummy) (32 * (filenumber % 16) + 28)
      have h₂ := hword (readsect st.disk sector 1 dummy) (32 * (filenumber % 16) + 30)
      lia

theorem loadFileWithName_size {filenum : Nat}
    (h : loadFileWithName dummy name fuel st filenum = some (true, file)) :
    file.fa.size < 2 ^ 32 := by
  induction fuel generalizing st filenum with
  | zero => exact absurd h (by simp [loadFileWithName])
  | succ fuel ih =>
    obtain ⟨⟨answer, st₁⟩, hload, h⟩ := Option.bind_eq_some_iff.mp h
    cases answer with
    | endOfDir => cases h
    | file =>
      dsimp only at h
      split at h
      · obtain ⟨-, rfl⟩ := Prod.mk.inj (Option.some.inj h)
        exact loadFileInCWD_size hload rfl
      · exact ih h
    | deleted => exact ih h
    | longFilename => exact ih h

/-- **A range is read as it should be** if and only if it fits. -/
theorem readsRange_iff
    (hfound : loadFileWithName dummy name fuel st 0 = some (true, file))
    (hw : WellFormed file) (hoffset : offset < 2 ^ 31) :
    ReadsRange file offset len (fatReadFileExt dummy fresh fuel name offset len st) ↔
      RangeFits file offset len := by
  have hb := hw.block
  have hword := loadFileWithName_size hfound
  obtain ⟨hlow₁, hhigh₁⟩ := div_bounds hb offset
  obtain ⟨hlow₂, hhigh₂⟩ := div_bounds hb (offset + len)
  have hblock : st.block ≠ 0 := by
    obtain ⟨-, hbpb, -⟩ := loadFileWithName_keeps hfound
    rw [State.block, ← hbpb]
    exact Nat.ne_of_gt hb
  unfold RangeFits
  by_cases hsum : offset + len < 2 ^ 31
  swap
  · -- the sum overflows
    have hnone : fatReadFileExt dummy fresh fuel name offset len st = none := by
      unfold fatReadFileExt
      rw [check_pos hblock, check, if_neg hsum]
      rfl
    rw [hnone]
    refine iff_of_false not_readsRange_none ?_
    rintro (hzero | ⟨-, hfits, -⟩)
    · lia
    · exact hsum hfits
  rw [fatReadFileExt_found hfound hblock hsum]
  by_cases hsize : file.fa.size < 2 ^ 31
  swap
  · rw [readLoop_huge hsize hword]
    have hempty : ((some [] : Option (List UInt8)).map fun out => (out, file))
        = some (slice file.fileByte offset 0, file) := rfl
    rw [hempty, readsRange_slice_iff]
    lia
  by_cases hbegins : BeginsBehind file offset len
  · rw [readLoop_stuck hw hsize hbegins]
    obtain ⟨hcluster, hbehind, hfurther⟩ := hbegins
    refine iff_of_false not_readsRange_none ?_
    rintro (rfl | ⟨-, -, hin | ⟨-, hin | hlater⟩⟩)
    · exact absurd hfurther (Nat.lt_irrefl _)
    · lia
    · lia
    · lia
  · obtain ⟨out, hrun, rfl⟩ := readLoop_spec fresh hw hsize hbegins
    rw [hrun, Option.map_some, readsRange_slice_iff, copyEnd]
    split
    · -- the range ends in a cluster of the file
      lia
    · -- it goes on behind the last one
      rw [BeginsBehind] at hbegins
      have hlater : offset / file.block * file.block < file.fa.size →
          offset / file.block < (offset + len) / file.block := by
        intro hfirst
        exact Nat.lt_of_mul_lt_mul_right (a := file.block) (by lia)
      have hreach : offset ≤ file.fa.size ∨ file.fa.size ≤ offset / file.block * file.block := by
        by_contra hboth
        rw [not_or, Nat.not_le, Nat.not_le] at hboth
        exact hbegins ⟨hboth.2, hboth.1, hlater hboth.2⟩
      refine iff_of_true (by lia) (.inr ⟨hsize, hsum, .inr ⟨by lia, hreach⟩⟩)

end Whole

def smallFileCard : Disk := fun sector k =>
  if sector = 2 ∧ k = 28 then 100 else oneFileCard false sector k

def smallFileInit : Option State :=
  fatInit smallFileCard (fun _ => 0) (fun _ => 0) noCWD noFile

theorem smallFileInit_ok : smallFileInit.isSome := rfl

def smallCard : State := smallFileInit.get smallFileInit_ok

def smallFileLoad : Option (Bool × State) :=
  loadFileWithName (fun _ => 0) [0x41] 2 smallCard 0

theorem smallFileLoad_ok : smallFileLoad.isSome := rfl

def smallFile : State := (smallFileLoad.get smallFileLoad_ok).2

theorem smallFile_found :
    loadFileWithName (fun _ => 0) [0x41] 2 smallCard 0 = some (true, smallFile) := by
  have hfound : (smallFileLoad.get smallFileLoad_ok).1 = true := rfl
  have hload : smallFileLoad = some (smallFileLoad.get smallFileLoad_ok) :=
    (Option.some_get _).symm
  have hpair : smallFileLoad.get smallFileLoad_ok = (true, smallFile) :=
    Prod.ext hfound (by rw [smallFile])
  exact hload.trans (congrArg some hpair)

theorem smallFile_size : smallFile.fa.size = 100 := rfl

theorem smallFile_block : smallFile.block = 512 := rfl

theorem smallFile_wellFormed : WellFormed smallFile where
  block := by rw [smallFile_block]; decide
  clusters := by
    intro k hk
    rw [smallFile_block, smallFile_size] at hk
    obtain rfl : k = 0 := by lia
    have hcluster : smallFile.clusterAt 0 = 2 := rfl
    have hentries : smallFile.da.entries = 256 := rfl
    rw [hcluster, hentries]
    decide

theorem readsRange_iff_small :
    ReadsRange smallFile 0 100 (fatReadFileExt (fun _ => 0) (fun _ => 0) 2 [0x41] 0 100 smallCard) ↔
      RangeFits smallFile 0 100 :=
  readsRange_iff smallFile_found smallFile_wellFormed (by decide)

/-- A range of 200 bytes of the file of 100 is read with the 100 bytes behind its end. -/
theorem range_past_end_not_read :
    smallFileInit = some smallCard ∧
      loadFileWithName (fun _ => 0) [0x41] 2 smallCard 0 = some (true, smallFile) ∧
      WellFormed smallFile ∧
      ¬ ReadsRange smallFile 0 200
        (fatReadFileExt (fun _ => 0) (fun _ => 0) 2 [0x41] 0 200 smallCard) := by
  refine ⟨(Option.some_get _).symm, smallFile_found, smallFile_wellFormed, ?_⟩
  have hblock : smallCard.block ≠ 0 := by
    obtain ⟨-, hbpb, -⟩ := loadFileWithName_keeps smallFile_found
    rw [State.block, ← hbpb]
    exact Nat.ne_of_gt smallFile_wellFormed.block
  have hbegins : ¬ BeginsBehind smallFile 0 200 := fun h => absurd h.2.1 (Nat.not_lt_zero _)
  obtain ⟨out, hrun, rfl⟩ := readLoop_spec (fun _ => 0) smallFile_wellFormed
    (by rw [smallFile_size]; decide) hbegins
  rw [fatReadFileExt_found smallFile_found hblock (by decide), hrun, Option.map_some,
    readsRange_slice_iff, copyEnd, smallFile_size, smallFile_block]
  decide

end Hplip.Pcard
