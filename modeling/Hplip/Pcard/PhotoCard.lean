import Mathlib
import Hplip.Lib.Runs

/-!
# The sector cache of a photo card (photocard.py)

Sectors that were read or written are kept, with how often they were asked for. When there are
too many, some that were asked for once are thrown away.

A dict is an association list. In which order it lists its keys is a parameter. Sector numbers
are not negative; a call is `none` when it raises an exception.
-/

namespace Hplip.Pcard.PhotoCard

open Runs

abbrev sectorSize : Nat := 512

abbrev maxCache : Nat := 512

abbrev nak : Nat := 0x0101

abbrev readOk : Nat := 0x0110

/-- `PhotoCard`, its cache: `sector_buffer`, `sector_buffer_counts` and `cache_flag`. -/
structure Cache where
  sectorBuffer : AList fun _ : Nat => List UInt8
  sectorBufferCounts : AList fun _ : Nat => Nat
  cacheFlag : Bool

structure Reply where
  code : Nat
  nsectorRead : Nat
  ver : Nat
  pieces : List (List UInt8)

variable {order : List Nat → List Nat}

/-! ## The calls -/

/-- Two bytes for the number of sectors, and four for each of them (`struct.pack`). -/
def Packs (sector nsector : Nat) : Prop :=
  nsector < 2 ^ 16 ∧ (0 < nsector → sector + nsector ≤ 2 ^ 32)

instance (sector nsector : Nat) : Decidable (Packs sector nsector) :=
  inferInstanceAs (Decidable (_ ∧ _))

def Cached (pc : Cache) (sector nsector : Nat) : Prop :=
  ∀ s ∈ List.range' sector nsector, s ∈ pc.sectorBuffer

instance (pc : Cache) (sector nsector : Nat) : Decidable (Cached pc sector nsector) :=
  inferInstanceAs (Decidable (∀ s ∈ List.range' sector nsector, s ∈ pc.sectorBuffer))

def readCached : Nat → Nat → List UInt8 → Cache → Option (Cache × List UInt8)
  | 0, _, buffer, pc => some (pc, buffer)
  | n + 1, s, buffer, pc => do
    let data ← pc.sectorBuffer.lookup s
    let count ← pc.sectorBufferCounts.lookup s
    readCached n (s + 1) (buffer ++ data)
      { pc with sectorBufferCounts := pc.sectorBufferCounts.insert s (count + 1) }

def receive (total : Nat) : List (List UInt8) → List UInt8 → Option (List UInt8)
  | [], buffer => if total ≤ buffer.length then some buffer else none
  | data :: pieces, buffer =>
    if total ≤ buffer.length then some buffer else receive total pieces (buffer ++ data)

def keep (count : Option Nat → Nat) : Nat → Nat → List UInt8 → Cache → Cache
  | 0, _, _, pc => pc
  | n + 1, s, buffer, pc =>
    keep count n (s + 1) (buffer.drop sectorSize)
      { pc with
        sectorBuffer := pc.sectorBuffer.insert s (buffer.take sectorSize)
        sectorBufferCounts :=
          pc.sectorBufferCounts.insert s (count (pc.sectorBufferCounts.lookup s)) }

/-- Both `del`. -/
def Cache.del (pc : Cache) (s : Nat) : Cache :=
  { pc with
    sectorBuffer := pc.sectorBuffer.erase s
    sectorBufferCounts := pc.sectorBufferCounts.erase s }

/-- The loop of `_check_cache`. -/
def throwAway (nsector : Nat) : List Nat → Nat → Cache → Option Cache
  | [], _, pc => some pc
  | s :: t, n, pc => do
    let count ← pc.sectorBufferCounts.lookup s
    if count = 1 then
      if nsector ≤ n + 1 then some (pc.del s) else throwAway nsector t (n + 1) (pc.del s)
    else throwAway nsector t n pc

def checkCache (order : List Nat → List Nat) (nsector : Nat) (pc : Cache) : Option Cache :=
  if maxCache < pc.sectorBuffer.keys.length then
    throwAway nsector (order pc.sectorBuffer.keys) 0 pc
  else some pc

def read (order : List Nat → List Nat) (pc : Cache) (sector nsector : Nat) (reply : Reply) :
    Option (Cache × List UInt8) :=
  if pc.cacheFlag ∧ Cached pc sector nsector then readCached nsector sector [] pc
  else if ¬ Packs sector nsector then none
  else if reply.code = readOk then do
    let buffer ← receive (nsector * sectorSize) reply.pieces []
    if pc.cacheFlag then
      -- as many sectors as the device says, whatever was asked for
      let pc ← checkCache order nsector
        (keep (fun count => count.getD 0 + 1) reply.nsectorRead sector buffer pc)
      return (pc, buffer)
    else return (pc, buffer)
  else some (pc, [])

def forget : Nat → Nat → Cache → Cache
  | 0, _, pc => pc
  | n + 1, s, pc => forget n (s + 1) (if s ∈ pc.sectorBuffer then pc.del s else pc)

/-- `_write`, with the code that the device returns. -/
def write (order : List Nat → List Nat) (pc : Cache) (sector nsector : Nat) (buffer : List UInt8)
    (code : Nat) : Option (Cache × Nat) :=
  if ¬ Packs sector nsector then none
  else if code ≠ nak then
    if pc.cacheFlag then do
      let pc ← checkCache order nsector (keep (fun _ => 1) nsector sector buffer pc)
      return (pc, 0)
    else some (pc, 0)
  else some (if pc.cacheFlag then forget nsector sector pc else pc, 1)

def cacheReset (pc : Cache) : Cache := { pc with sectorBuffer := ∅, sectorBufferCounts := ∅ }

def cacheControl (pc : Cache) (control : Bool) : Cache :=
  let pc := { pc with cacheFlag := control }
  if ¬ pc.cacheFlag then cacheReset pc else pc

/-- The cache after `__init__`. -/
def opened : Cache := ⟨∅, ∅, true⟩

/-! ## The card -/

structure Sector where
  bytes : List UInt8
  length_eq : bytes.length = sectorSize

abbrev Card := Nat → Sector

def bytesOf (data : List Sector) : List UInt8 := data.flatMap Sector.bytes

def Card.contents (card : Card) (sector nsector : Nat) : List UInt8 :=
  bytesOf ((List.range' sector nsector).map card)

def Card.write (card : Card) (sector : Nat) (data : List Sector) : Card := fun s =>
  if sector ≤ s then data.getD (s - sector) (card s) else card s

inductive Call
  | read (sector nsector : Nat) (reply : Reply)
  | write (sector : Nat) (data : List Sector) (code : Nat)
  | cacheControl (control : Bool)
  | cacheReset

inductive Result
  | data (buffer : List UInt8)
  | status (n : Nat)
  | nothing

structure World where
  card : Card
  pc : Cache

def Call.run (order : List Nat → List Nat) (w : World) : Call → Option (World × Result)
  | .read sector nsector reply =>
    (PhotoCard.read order w.pc sector nsector reply).map fun r => ({ w with pc := r.1 }, .data r.2)
  | .write sector data code =>
    (PhotoCard.write order w.pc sector data.length (bytesOf data) code).map fun r =>
      (⟨if code ≠ nak then w.card.write sector data else w.card, r.1⟩, .status r.2)
  | .cacheControl control => some ({ w with pc := PhotoCard.cacheControl w.pc control }, .nothing)
  | .cacheReset => some ({ w with pc := PhotoCard.cacheReset w.pc }, .nothing)

def Call.nsector : Call → Nat
  | .read _ nsector _ => nsector
  | .write _ data _ => data.length
  | _ => 0

/-- The card answers a read with what it has. Its number of sectors can be any. -/
def Faithful (card : Card) : Call → Prop
  | .read sector nsector reply =>
    reply.code = readOk ∧ reply.pieces.flatten = card.contents sector nsector
  | _ => True

/-- The request can be packed, and a reply whose sectors are kept has no more of them than were
asked for. -/
def Meets (pc : Cache) : Call → Prop
  | .read sector nsector reply => (pc.cacheFlag ∧ Cached pc sector nsector) ∨
    Packs sector nsector ∧ (pc.cacheFlag → reply.nsectorRead ≤ nsector)
  | .write sector data _ => Packs sector data.length
  | _ => True

/-- A call that returns, on a faithful card. -/
def Step (order : List Nat → List Nat) (c : Call) (w w' : World) : Prop :=
  Faithful w.card c ∧ ∃ r, c.run order w = some (w', r)

def Right (w : World) (r : Result) : Call → Prop
  | .read sector nsector _ => r = .data (w.card.contents sector nsector)
  | _ => True

/-- Both dicts have the same keys. -/
def SameKeys (pc : Cache) : Prop := ∀ s, s ∈ pc.sectorBuffer ↔ s ∈ pc.sectorBufferCounts

/-! ## The loops -/

section Loops

variable {pc pc' : Cache} {card : Card} {count : Option Nat → Nat}

theorem length_bytesOf (data : List Sector) : (bytesOf data).length = data.length * sectorSize := by
  induction data with
  | nil => rfl
  | cons x data ih =>
    rw [bytesOf, List.flatMap_cons, List.length_append, x.length_eq, ← bytesOf, ih,
      List.length_cons, Nat.succ_mul, Nat.add_comm]

theorem contents_succ (sector n : Nat) :
    card.contents sector (n + 1) = (card sector).bytes ++ card.contents (sector + 1) n := rfl

variable (card) in
theorem length_contents (sector n : Nat) :
    (card.contents sector n).length = n * sectorSize := by
  rw [Card.contents, length_bytesOf, List.length_map, List.length_range']

def Coherent (card : Card) (pc : Cache) : Prop :=
  ∀ s data, pc.sectorBuffer.lookup s = some data → data = (card s).bytes

theorem readCached_eq {n s : Nat} (hcoh : Coherent card pc) (hkeys : SameKeys pc)
    (hcached : Cached pc s n) (buffer : List UInt8) :
    ∃ counts, readCached n s buffer pc
        = some ({ pc with sectorBufferCounts := counts }, buffer ++ card.contents s n)
      ∧ SameKeys { pc with sectorBufferCounts := counts } := by
  induction n generalizing s buffer pc with
  | zero => exact ⟨_, by rw [readCached, Card.contents, bytesOf]; simp, hkeys⟩
  | succ n ih =>
    have hmem : s ∈ pc.sectorBuffer := hcached s (by simp)
    obtain ⟨data, hdata⟩ := Option.isSome_iff_exists.mp (AList.lookup_isSome.mpr hmem)
    obtain ⟨k, hk⟩ := Option.isSome_iff_exists.mp (AList.lookup_isSome.mpr ((hkeys s).mp hmem))
    have hkeys' : SameKeys { pc with
        sectorBufferCounts := pc.sectorBufferCounts.insert s (k + 1) } := by
      intro x
      show x ∈ pc.sectorBuffer ↔ x ∈ pc.sectorBufferCounts.insert s (k + 1)
      rw [AList.mem_insert, ← hkeys x]
      constructor
      · exact .inr
      · rintro (rfl | hx)
        · exact hmem
        · exact hx
    have hcached' : Cached { pc with
        sectorBufferCounts := pc.sectorBufferCounts.insert s (k + 1) } (s + 1) n := by
      intro x hx
      exact hcached x (by rw [List.range'_succ]; exact List.mem_cons_of_mem _ hx)
    have hcoh' : Coherent card { pc with
        sectorBufferCounts := pc.sectorBufferCounts.insert s (k + 1) } := hcoh
    obtain ⟨counts, hrun, hcounts⟩ := ih hcoh' hkeys' hcached' (buffer ++ data)
    refine ⟨counts, ?_, hcounts⟩
    rw [readCached, hdata, hk, contents_succ, ← hcoh s data hdata, ← List.append_assoc]
    exact hrun

theorem receive_eq {total : Nat} {pieces : List (List UInt8)} {buffer : List UInt8}
    (hlen : (buffer ++ pieces.flatten).length = total) :
    receive total pieces buffer = some (buffer ++ pieces.flatten) := by
  induction pieces generalizing buffer with
  | nil =>
    rw [List.flatten_nil, List.append_nil] at hlen ⊢
    rw [receive, if_pos (Nat.le_of_eq hlen.symm)]
  | cons data pieces ih =>
    rw [List.flatten_cons, ← List.append_assoc] at hlen ⊢
    rw [receive]
    by_cases hdone : total ≤ buffer.length
    · -- the pieces that are left have nothing
      rw [if_pos hdone]
      rw [List.append_assoc, List.length_append] at hlen
      have hnil : data ++ pieces.flatten = [] := List.length_eq_zero_iff.mp (by lia)
      rw [List.append_assoc, hnil, List.append_nil]
    · rw [if_neg hdone]
      exact ih hlen

@[simp] theorem keep_cacheFlag (n s : Nat) (buffer : List UInt8) :
    (keep count n s buffer pc).cacheFlag = pc.cacheFlag := by
  induction n generalizing s buffer pc with
  | zero => rfl
  | succ n ih =>
    rw [keep, ih]

theorem mem_keep {n s x : Nat} (buffer : List UInt8) :
    x ∈ (keep count n s buffer pc).sectorBuffer ↔ x ∈ List.range' s n ∨ x ∈ pc.sectorBuffer := by
  induction n generalizing s buffer pc with
  | zero => simp [keep]
  | succ n ih =>
    rw [keep, ih, AList.mem_insert, List.range'_succ, List.mem_cons]
    tauto

variable (count) in
theorem SameKeys.keep (hkeys : SameKeys pc) (n s : Nat) (buffer : List UInt8) :
    SameKeys (keep count n s buffer pc) := by
  induction n generalizing s buffer pc with
  | zero => exact hkeys
  | succ n ih =>
    refine ih (fun x => ?_) _ _
    show x ∈ pc.sectorBuffer.insert s _ ↔ x ∈ pc.sectorBufferCounts.insert s _
    rw [AList.mem_insert, AList.mem_insert, hkeys x]

theorem keep_count {n s x : Nat} (hcount : count none = 1) (hkeys : SameKeys pc)
    (buffer : List UInt8) (hx : x ∈ (keep count n s buffer pc).sectorBuffer)
    (hnew : x ∉ pc.sectorBuffer) :
    (keep count n s buffer pc).sectorBufferCounts.lookup x = some 1 := by
  have hother : ∀ (n s : Nat) (buffer : List UInt8) (pc : Cache), x < s →
      (PhotoCard.keep count n s buffer pc).sectorBufferCounts.lookup x
        = pc.sectorBufferCounts.lookup x := by
    intro n
    induction n with
    | zero => exact fun _ _ _ _ => rfl
    | succ n ih =>
      intro s buffer pc hlt
      rw [PhotoCard.keep, ih _ _ _ (by omega)]
      exact AList.lookup_insert_ne (by omega)
  induction n generalizing s buffer pc with
  | zero => exact absurd hx hnew
  | succ n ih =>
    rw [PhotoCard.keep] at hx ⊢
    by_cases hxs : x = s
    · subst hxs
      rw [hother _ _ _ _ (Nat.lt_succ_self x)]
      show (pc.sectorBufferCounts.insert x _).lookup x = some 1
      rw [AList.lookup_insert, AList.lookup_eq_none.mpr fun hmem => hnew ((hkeys x).mpr hmem),
        hcount]
    · refine ih (fun y => ?_) _ hx ?_
      · show y ∈ pc.sectorBuffer.insert s _ ↔ y ∈ pc.sectorBufferCounts.insert s _
        rw [AList.mem_insert, AList.mem_insert, hkeys y]
      · show x ∉ pc.sectorBuffer.insert s _
        rw [AList.mem_insert]
        exact fun h => h.elim hxs hnew

theorem coherent_keep {n m s : Nat} (hle : n ≤ m) (more : List UInt8)
    (hother : ∀ x, x < s ∨ s + n ≤ x → ∀ data, pc.sectorBuffer.lookup x = some data →
      data = (card x).bytes) :
    Coherent card (keep count n s (card.contents s m ++ more) pc) := by
  induction n generalizing s m pc with
  | zero => exact fun x => hother x (by lia)
  | succ n ih =>
    obtain ⟨m, rfl⟩ : ∃ k, m = k + 1 := ⟨m - 1, by lia⟩
    rw [keep, contents_succ, List.append_assoc, List.drop_left' (card s).length_eq,
      List.take_left' (card s).length_eq]
    refine ih (Nat.le_of_succ_le_succ hle) (fun x hx data hdata => ?_)
    have hdata : (pc.sectorBuffer.insert s (card s).bytes).lookup x = some data := hdata
    by_cases hxs : x = s
    · subst hxs
      rw [AList.lookup_insert] at hdata
      exact (Option.some.inj hdata).symm
    · rw [AList.lookup_insert_ne hxs] at hdata
      exact hother x (by lia) data hdata

theorem contents_write (card : Card) (sector : Nat) (data : List Sector) :
    (card.write sector data).contents sector data.length = bytesOf data := by
  have hmap : (List.range' sector data.length).map (card.write sector data) = data := by
    refine List.ext_getElem (by simp) fun k hk _ => ?_
    have hlt : k < data.length := by simpa using hk
    simp [Card.write, List.getD_eq_getElem?_getD, hlt]
  rw [Card.contents, hmap]

theorem write_of_lt {sector x : Nat} {data : List Sector}
    (hx : x < sector ∨ sector + data.length ≤ x) : card.write sector data x = card x := by
  rw [Card.write]
  by_cases hle : sector ≤ x
  · rw [if_pos hle, List.getD_eq_getElem?_getD, List.getElem?_eq_none (by lia)]
    rfl
  · rw [if_neg hle]

@[simp] theorem del_lookup_self (s : Nat) : (pc.del s).sectorBuffer.lookup s = none :=
  AList.lookup_erase s _

theorem del_lookup_of_ne {s x : Nat} (hxs : x ≠ s) :
    (pc.del s).sectorBuffer.lookup x = pc.sectorBuffer.lookup x
      ∧ (pc.del s).sectorBufferCounts.lookup x = pc.sectorBufferCounts.lookup x :=
  ⟨AList.lookup_erase_ne hxs, AList.lookup_erase_ne hxs⟩

theorem SameKeys.del (hkeys : SameKeys pc) (s : Nat) : SameKeys (pc.del s) := by
  intro x
  show x ∈ pc.sectorBuffer.erase s ↔ x ∈ pc.sectorBufferCounts.erase s
  rw [AList.mem_erase, AList.mem_erase, hkeys x]

theorem Coherent.del (hcoh : Coherent card pc) (s : Nat) : Coherent card (pc.del s) := by
  intro x data hdata
  by_cases hxs : x = s
  · rw [hxs, del_lookup_self] at hdata
    cases hdata
  · rw [(del_lookup_of_ne hxs).1] at hdata
    exact hcoh x data hdata

def onces (pc : Cache) (t : List Nat) : Nat :=
  t.countP fun s => pc.sectorBufferCounts.lookup s = some 1

theorem onces_congr {t : List Nat}
    (h : ∀ x ∈ t, pc'.sectorBufferCounts.lookup x = pc.sectorBufferCounts.lookup x) :
    onces pc' t = onces pc t :=
  List.countP_congr fun x hx => by rw [h x hx]

theorem throwAway_spec (nsector n : Nat) {t : List Nat} (hnodup : t.Nodup)
    (ht : ∀ s ∈ t, s ∈ pc.sectorBuffer) (hkeys : SameKeys pc) (hcoh : Coherent card pc) :
    ∃ pc', throwAway nsector t n pc = some pc' ∧ SameKeys pc' ∧ Coherent card pc' ∧
      pc'.cacheFlag = pc.cacheFlag ∧
      pc'.sectorBuffer.keys.length + min (nsector - n) (onces pc t)
        ≤ pc.sectorBuffer.keys.length := by
  induction t generalizing n pc with
  | nil => exact ⟨pc, rfl, hkeys, hcoh, rfl, by simp [onces]⟩
  | cons s t ih =>
    obtain ⟨hs, hnodup⟩ := List.nodup_cons.mp hnodup
    have hmem := ht s List.mem_cons_self
    have htail : ∀ x ∈ t, x ∈ pc.sectorBuffer := fun x hx => ht x (List.mem_cons_of_mem _ hx)
    obtain ⟨k, hk⟩ := Option.isSome_iff_exists.mp (AList.lookup_isSome.mpr ((hkeys s).mp hmem))
    rw [throwAway, hk]
    simp only [Option.bind_eq_bind, Option.bind_some]
    by_cases hone : k = 1
    · have honces : onces pc (s :: t) = onces pc t + 1 := by
        rw [onces, List.countP_cons_of_pos (by rw [hk, hone]; exact decide_eq_true rfl)]
        rfl
      have hlen : (pc.del s).sectorBuffer.keys.length + 1 = pc.sectorBuffer.keys.length := by
        show (pc.sectorBuffer.erase s).keys.length + 1 = _
        rw [AList.keys_erase, List.length_erase_of_mem (AList.mem_keys.mp hmem)]
        exact Nat.sub_add_cancel (List.length_pos_of_mem (AList.mem_keys.mp hmem))
      rw [if_pos hone]
      by_cases hdone : nsector ≤ n + 1
      · rw [if_pos hdone]
        exact ⟨_, rfl, hkeys.del s, hcoh.del s, rfl, by lia⟩
      · have hne : ∀ x ∈ t, x ≠ s := fun x hx hxs => hs (hxs ▸ hx)
        have hthere : ∀ x ∈ t, x ∈ (pc.del s).sectorBuffer := fun x hx =>
          AList.mem_erase.mpr ⟨hne x hx, htail x hx⟩
        have hsame : onces (pc.del s) t = onces pc t :=
          onces_congr fun x hx => (del_lookup_of_ne (hne x hx)).2
        rw [if_neg hdone]
        obtain ⟨pc', hrun, hkeys', hcoh', hflag', hlen'⟩ :=
          ih (n + 1) hnodup hthere (hkeys.del s) (hcoh.del s)
        exact ⟨pc', hrun, hkeys', hcoh', hflag', by lia⟩
    · have honces : onces pc (s :: t) = onces pc t := by
        rw [onces, List.countP_cons_of_neg]
        · rfl
        · rw [hk]
          simpa using hone
      rw [if_neg hone, honces]
      exact ih n hnodup htail hkeys hcoh

theorem length_keep {n s : Nat} (hcount : count none = 1) (hkeys : SameKeys pc)
    (buffer : List UInt8) :
    let pc' := keep count n s buffer pc
    pc'.sectorBuffer.keys.length
      ≤ pc.sectorBuffer.keys.length + min n (onces pc' pc'.sectorBuffer.keys) := by
  intro pc'
  have hnodup : pc'.sectorBuffer.keys.Nodup := pc'.sectorBuffer.keys_nodup
  have hsplit := List.length_eq_countP_add_countP (fun x => x ∈ pc.sectorBuffer)
    (l := pc'.sectorBuffer.keys)
  have hold : pc'.sectorBuffer.keys.countP (fun x => decide (x ∈ pc.sectorBuffer))
      ≤ pc.sectorBuffer.keys.length := by
    rw [List.countP_eq_length_filter]
    have hsub : pc'.sectorBuffer.keys.filter (fun x => decide (x ∈ pc.sectorBuffer))
        ⊆ pc.sectorBuffer.keys := by
      intro x hx
      exact AList.mem_keys.mp (by simpa using (List.mem_filter.mp hx).2)
    exact (List.subperm_of_subset (hnodup.filter _) hsub).length_le
  have hrange : pc'.sectorBuffer.keys.countP (fun x => ¬ decide (x ∈ pc.sectorBuffer) = true)
      ≤ n := by
    rw [List.countP_eq_length_filter]
    have hsub : pc'.sectorBuffer.keys.filter (fun x => ¬ decide (x ∈ pc.sectorBuffer) = true)
        ⊆ List.range' s n := by
      intro x hx
      obtain ⟨hx, hnew⟩ := List.mem_filter.mp hx
      have hnew : x ∉ pc.sectorBuffer := by simpa using hnew
      exact ((mem_keep buffer).mp (AList.mem_keys.mpr hx)).resolve_right hnew
    exact Nat.le_trans (List.subperm_of_subset (hnodup.filter _) hsub).length_le (Nat.le_of_eq List.length_range')
  have honce : pc'.sectorBuffer.keys.countP (fun x => ¬ decide (x ∈ pc.sectorBuffer) = true)
      ≤ onces pc' pc'.sectorBuffer.keys := by
    refine List.countP_mono_left fun x hx hnew => decide_eq_true ?_
    exact keep_count hcount hkeys buffer (AList.mem_keys.mpr hx) (by simpa using hnew)
  lia

@[simp] theorem forget_cacheFlag (n s : Nat) : (forget n s pc).cacheFlag = pc.cacheFlag := by
  induction n generalizing s pc with
  | zero => rfl
  | succ n ih =>
    rw [forget, ih]
    split
    · rfl
    · rfl

theorem forget_spec (n s : Nat) (hkeys : SameKeys pc) (hcoh : Coherent card pc) :
    SameKeys (forget n s pc) ∧ Coherent card (forget n s pc) ∧
      (forget n s pc).sectorBuffer.keys.length ≤ pc.sectorBuffer.keys.length := by
  induction n generalizing s pc with
  | zero => exact ⟨hkeys, hcoh, Nat.le_refl _⟩
  | succ n ih =>
    rw [forget]
    by_cases hmem : s ∈ pc.sectorBuffer
    · rw [if_pos hmem]
      obtain ⟨hkeys', hcoh', hlen⟩ := ih (s + 1) (hkeys.del s) (hcoh.del s)
      refine ⟨hkeys', hcoh', Nat.le_trans hlen ?_⟩
      show (pc.sectorBuffer.erase s).keys.length ≤ _
      rw [AList.keys_erase]
      exact List.length_erase_le
    · rw [if_neg hmem]
      exact ih (s + 1) hkeys hcoh

end Loops

/-! ## What holds over runs -/

/-- What the cache has is what the card has, both dicts have the same keys, and there are not
too many. Without the flag there is nothing. -/
structure Sound (card : Card) (pc : Cache) : Prop where
  coherent : Coherent card pc
  sameKeys : SameKeys pc
  size : pc.sectorBuffer.keys.length ≤ maxCache
  empty : pc.cacheFlag = false → pc.sectorBuffer = ∅

section Sound

variable {pc : Cache} {card : Card} {count : Option Nat → Nat} {w : World}

theorem sound_empty (card : Card) (flag : Bool) : Sound card ⟨∅, ∅, flag⟩ where
  coherent := by
    intro s data hdata
    rw [AList.lookup_empty] at hdata
    cases hdata
  sameKeys := fun s => by simp
  size := by simp
  empty := fun _ => rfl

theorem Sound.keep (h : Sound card pc) (hperm : ∀ l, (order l).Perm l) (hflag : pc.cacheFlag = true)
    (hcount : count none = 1) {n nsector s : Nat} {buffer : List UInt8} {card' : Card}
    (hle : n ≤ nsector) (hcoh : Coherent card' (keep count n s buffer pc)) :
    ∃ pc', checkCache order nsector (PhotoCard.keep count n s buffer pc) = some pc'
      ∧ Sound card' pc' := by
  have hlen := length_keep (n := n) (s := s) hcount h.sameKeys buffer
  have hkeys := h.sameKeys.keep count n s buffer
  have hflag' : (PhotoCard.keep count n s buffer pc).cacheFlag = true := by
    rw [keep_cacheFlag, hflag]
  have hsize := h.size
  revert hcoh hlen hkeys hflag'
  generalize PhotoCard.keep count n s buffer pc = pc₁
  intro hcoh hlen hkeys hflag'
  rw [checkCache]
  by_cases hmany : maxCache < pc₁.sectorBuffer.keys.length
  · have hperm := hperm pc₁.sectorBuffer.keys
    obtain ⟨pc', hrun, hkeys', hcoh', hflag₂, hlen'⟩ := throwAway_spec nsector 0
      (hperm.nodup_iff.mpr pc₁.sectorBuffer.keys_nodup)
      (fun s hs => AList.mem_keys.mpr (hperm.mem_iff.mp hs)) hkeys hcoh
    have honces : onces pc₁ (order pc₁.sectorBuffer.keys) = onces pc₁ pc₁.sectorBuffer.keys :=
      hperm.countP_eq _
    rw [if_pos hmany]
    refine ⟨pc', hrun, hcoh', hkeys', ?_, fun hoff => ?_⟩
    · -- as many are thrown away as were added
      dsimp only at hlen
      lia
    · rw [hflag₂, hflag'] at hoff
      cases hoff
  · rw [if_neg hmany]
    refine ⟨pc₁, rfl, hcoh, hkeys, by lia, fun hoff => ?_⟩
    rw [hflag'] at hoff
    cases hoff

theorem Sound.read (h : Sound card pc) (hperm : ∀ l, (order l).Perm l) {sector nsector : Nat}
    {reply : Reply} (hfaithful : Faithful card (.read sector nsector reply))
    (hmeets : Meets pc (.read sector nsector reply)) :
    ∃ pc', PhotoCard.read order pc sector nsector reply
        = some (pc', card.contents sector nsector) ∧ Sound card pc' := by
  obtain ⟨hcode, hdata⟩ := hfaithful
  rw [PhotoCard.read]
  by_cases hcached : pc.cacheFlag ∧ Cached pc sector nsector
  · obtain ⟨counts, hrun, hkeys⟩ := readCached_eq h.coherent h.sameKeys hcached.2 []
    rw [if_pos hcached, hrun]
    exact ⟨_, rfl, h.coherent, hkeys, h.size, h.empty⟩
  · obtain ⟨hpacks, hle⟩ := hmeets.resolve_left hcached
    have hreceive : receive (nsector * sectorSize) reply.pieces []
        = some (card.contents sector nsector) := by
      rw [receive_eq]
      · rw [List.nil_append, hdata]
      · rw [List.nil_append, hdata, length_contents]
    rw [if_neg hcached, if_neg (not_not.mpr hpacks), if_pos hcode, hreceive]
    by_cases hflag : pc.cacheFlag = true
    · have hcoh : Coherent card (PhotoCard.keep (fun count => count.getD 0 + 1) reply.nsectorRead
          sector (card.contents sector nsector) pc) := by
        rw [← List.append_nil (card.contents sector nsector)]
        exact coherent_keep (hle hflag) [] fun x _ => h.coherent x
      obtain ⟨pc', hrun, hsound⟩ := h.keep hperm hflag rfl (hle hflag) hcoh
      refine ⟨pc', ?_, hsound⟩
      simp only [Option.bind_eq_bind, Option.bind_some, if_pos hflag, hrun]
      rfl
    · refine ⟨pc, ?_, h⟩
      simp only [Option.bind_eq_bind, Option.bind_some, if_neg hflag]
      rfl

theorem Sound.write (h : Sound card pc) (hperm : ∀ l, (order l).Perm l) {sector : Nat} (code : Nat)
    {data : List Sector} (hpacks : Packs sector data.length) :
    ∃ r, PhotoCard.write order pc sector data.length (bytesOf data) code = some r
      ∧ Sound (if code ≠ nak then card.write sector data else card) r.1 := by
  rw [PhotoCard.write, if_neg (not_not.mpr hpacks)]
  by_cases hcode : code ≠ nak
  · rw [if_pos hcode, if_pos hcode]
    by_cases hflag : pc.cacheFlag = true
    · have hcoh : Coherent (card.write sector data)
          (PhotoCard.keep (fun _ => 1) data.length sector (bytesOf data) pc) := by
        rw [← contents_write card sector data,
          ← List.append_nil ((card.write sector data).contents sector data.length)]
        refine coherent_keep (Nat.le_refl _) [] fun x hx d hd => ?_
        rw [write_of_lt hx]
        exact h.coherent x d hd
      obtain ⟨pc', hrun, hsound⟩ := h.keep hperm hflag rfl (Nat.le_refl _) hcoh
      refine ⟨(pc', 0), ?_, hsound⟩
      simp only [if_pos hflag, hrun, Option.bind_eq_bind, Option.bind_some]
      rfl
    · have hoff : pc.cacheFlag = false := eq_false_of_ne_true hflag
      refine ⟨(pc, 0), if_neg hflag, ?_, h.sameKeys, h.size, h.empty⟩
      intro x d hd
      rw [h.empty hoff, AList.lookup_empty] at hd
      cases hd
  · rw [if_neg hcode, if_neg hcode]
    refine ⟨_, rfl, ?_⟩
    by_cases hflag : pc.cacheFlag = true
    · obtain ⟨hkeys, hcoh, hlen⟩ := forget_spec data.length sector h.sameKeys h.coherent
      rw [if_pos hflag]
      refine ⟨hcoh, hkeys, Nat.le_trans hlen h.size, fun hoff => ?_⟩
      rw [forget_cacheFlag, hflag] at hoff
      cases hoff
    · rw [if_neg hflag]
      exact h

theorem Sound.run (h : Sound w.card w.pc) (hperm : ∀ l, (order l).Perm l) {c : Call}
    (hfaithful : Faithful w.card c) (hmeets : Meets w.pc c) :
    ∃ w' r, c.run order w = some (w', r) ∧ Right w r c ∧ Sound w'.card w'.pc := by
  cases c with
  | read sector nsector reply =>
    obtain ⟨pc', hrun, hsound⟩ := h.read hperm hfaithful hmeets
    refine ⟨{ w with pc := pc' }, _, ?_, rfl, hsound⟩
    rw [Call.run, hrun]
    rfl
  | write sector data code =>
    obtain ⟨r, hrun, hsound⟩ := h.write hperm code hmeets
    refine ⟨⟨_, r.1⟩, .status r.2, ?_, trivial, hsound⟩
    rw [Call.run, hrun]
    rfl
  | cacheControl control =>
    refine ⟨_, _, rfl, trivial, ?_⟩
    cases control with
    | false => exact sound_empty w.card false
    | true => exact ⟨h.coherent, h.sameKeys, h.size, nofun⟩
  | cacheReset => exact ⟨_, _, rfl, trivial, sound_empty w.card _⟩

def zeros : Sector := ⟨List.replicate sectorSize 0, List.length_replicate⟩

end Sound

end Hplip.Pcard.PhotoCard
