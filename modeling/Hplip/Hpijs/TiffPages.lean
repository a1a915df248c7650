import Hplip.Lib.CInt
import Hplip.Lib.LittleEndian
import Hplip.Lib.Loop

/-!
# A TIFF fax in pages (hpcupsfax.cpp)

`ProcessTiffData` follows the chain of the directories (IFDs) of a file and writes what lies
between two of them as a page, behind a header with its length. The numbers are read into
variables of a little-endian machine; a read at the end of the file leaves a variable, or a part
of it, as it was.
-/

namespace Hplip.Hpijs.TiffPages

open LittleEndian CInt Loop

/-- `read (fdTiff, &v, k)` at a position, for a variable that holds `v`. -/
def readInto (file : List UInt8) (pos k v : Nat) : Nat :=
  let got := (file.drop pos).take k
  littleEndian (got ++ (bytes k v).drop got.length) 0 k

def ntohs (v : Nat) : Nat := littleEndian (bytes 2 v).reverse 0 2

def ntohl (v : Nat) : Nat := littleEndian (bytes 4 v).reverse 0 4

/-- `*ifd_offset`, `ifd_count` and `next_ifd_offset`. -/
structure Cursor where
  ifdOffset : Nat
  ifdCount : Nat
  nextIfdOffset : Nat

def readIfd (file : List UInt8) (bigEndian : Bool) (c : Cursor) : Cursor :=
  let ifdCount := readInto file c.ifdOffset 2 c.ifdCount
  let ifdCount := if bigEndian then ntohs ifdCount else ifdCount
  let next := readInto file ((c.ifdOffset + 2 + ifdCount * 12) % 2 ^ 32) 4 c.nextIfdOffset
  -- not `ntohl`
  let next := if bigEndian then ntohs next else next
  ⟨c.ifdOffset, ifdCount, next⟩

structure Page where
  number : Nat
  length : Int
  bytes : List UInt8

/-- The variables of the loops, and what was written; `copying` is the inner one. -/
structure State where
  bigEndian : Bool
  cursor : Cursor
  currentIfdStart : Nat
  pageLength : Int
  pos : Nat
  bytesWritten : Nat
  copying : Bool
  page : Page
  done : List Page

structure Result where
  retStatus : Int
  pages : List Page

/-- `next_ifd_offset - current_ifd_start`, or up to the end of the file. -/
def pageLength (file : List UInt8) (next current : Nat) : Int :=
  if wrapAdd next (-current) ≤ 0 then wrapAdd file.length (-current) else wrapAdd next (-current)

def startPage (file : List UInt8) (s : State) : State :=
  let c := readIfd file s.bigEndian s.cursor
  let n := pageLength file c.nextIfdOffset s.currentIfdStart
  { s with
    cursor := c, pageLength := n, pos := s.currentIfdStart, copying := true
    page := ⟨s.done.length + 1, n, []⟩ }

def finishPage (file : List UInt8) (s : State) : State ⊕ Except Unit Result :=
  let done := s.done ++ [s.page]
  if file.length < s.bytesWritten then .inr (.ok ⟨-1, done⟩)
  else if s.cursor.nextIfdOffset = 0 then .inr (.ok ⟨0, done⟩)
  else .inl { s with
    cursor := ⟨s.cursor.nextIfdOffset, s.cursor.ifdCount, s.cursor.nextIfdOffset⟩
    currentIfdStart := s.cursor.nextIfdOffset, copying := false, done := done }

/-- A round; the error is an overflow of `bytes_written`. -/
def step (file : List UInt8) (s : State) : State ⊕ Except Unit Result :=
  if s.copying then
    if 0 < s.pageLength then
      let len := if s.pageLength < 4096 then s.pageLength.toNat else 4096
      let got := (file.drop s.pos).take len
      if s.bytesWritten + got.length < 2 ^ 31 then
        .inl { s with
          pageLength := s.pageLength - got.length, pos := s.pos + got.length
          bytesWritten := s.bytesWritten + got.length
          page := { s.page with bytes := s.page.bytes ++ got } }
      else .inr (.error ())
    else finishPage file s
  else .inl (startPage file s)

structure Stale where
  ifdOffset : Nat
  ifdCount : Nat
  nextIfdOffset : Nat

/-- The file in `fdTiff`, and its header read. -/
def start (file : List UInt8) (u : Stale) : State where
  bigEndian := file.head? = some 77
  cursor :=
    let offset := readInto file 4 4 u.ifdOffset
    ⟨if file.head? = some 77 then ntohl offset else offset, u.ifdCount, u.nextIfdOffset⟩
  currentIfdStart := 0
  pageLength := 0
  pos := 0
  bytesWritten := 0
  copying := false
  page := ⟨0, 0, []⟩
  done := []

/-- `ProcessTiffData` ends. The bytes that come in are counted in an `int` too. -/
def Returns (file : List UInt8) (u : Stale) (r : Result) : Prop :=
  file.length < 2 ^ 31 ∧ ∃ n, rounds (step file) n (start file u) = .inr (.ok r)

def Terminates (file : List UInt8) (u : Stale) : Prop := ∃ r, Returns file u r

/-- The file is split into `n` pages. -/
def SplitsInto (file : List UInt8) (u : Stale) (n : Nat) : Prop :=
  ∃ r, Returns file u r ∧ r.pages.length = n ∧ (∀ p ∈ r.pages, p.length = p.bytes.length) ∧
    r.pages.flatMap Page.bytes = file

/-! ## Files -/

def number (bigEndian : Bool) (file : List UInt8) (i k : Nat) : Nat :=
  let l := (file.drop i).take k
  littleEndian (if bigEndian then l.reverse else l) 0 k

def nextAt (bigEndian : Bool) (file : List UInt8) (o : Nat) : Nat :=
  o + 2 + number bigEndian file o 2 * 12

/-- A chain of `n` IFDs from an offset on, inside the file and increasing. -/
inductive Ifds (bigEndian : Bool) (file : List UInt8) : Nat → Nat → Prop
  | last {o : Nat} : nextAt bigEndian file o + 4 ≤ file.length →
    number bigEndian file (nextAt bigEndian file o) 4 = 0 → Ifds bigEndian file o 1
  | more {o n : Nat} : nextAt bigEndian file o + 4 ≤ file.length →
    o < number bigEndian file (nextAt bigEndian file o) 4 →
    Ifds bigEndian file (number bigEndian file (nextAt bigEndian file o) 4) n →
    Ifds bigEndian file o (n + 1)

structure TiffFile where
  bytes : List UInt8
  bigEndian : Bool
  count : Nat
  order : bytes.take 2 = if bigEndian then [77, 77] else [73, 73]
  magic : number bigEndian bytes 2 2 = 42
  first : 8 ≤ number bigEndian bytes 4 4
  ifds : Ifds bigEndian bytes (number bigEndian bytes 4 4) count

/-- The chain as it is read: `n` offsets, each behind the one before it and inside the file. -/
inductive Seen (bigEndian : Bool) (file : List UInt8) : Nat → Cursor → Nat → Prop
  | last {current : Nat} {c : Cursor} : (readIfd file bigEndian c).nextIfdOffset = 0 →
    Seen bigEndian file current c 1
  | more {current : Nat} {c : Cursor} {n : Nat} :
    current < (readIfd file bigEndian c).nextIfdOffset →
    (readIfd file bigEndian c).nextIfdOffset < file.length →
    Seen bigEndian file (readIfd file bigEndian c).nextIfdOffset
      ⟨(readIfd file bigEndian c).nextIfdOffset, (readIfd file bigEndian c).ifdCount,
        (readIfd file bigEndian c).nextIfdOffset⟩ n →
    Seen bigEndian file current c (n + 1)

/-! ## Pages -/

def size (file : List UInt8) (s : State) : Nat := (startPage file s).pageLength.toNat

/-- The file has as many, and they can be counted. -/
def Fits (file : List UInt8) (s : State) : Prop :=
  size file s = 0 ∨ s.currentIfdStart + size file s ≤ file.length ∧
    s.bytesWritten + size file s < 2 ^ 31

def endPage (file : List UInt8) (s : State) : State :=
  let t := startPage file s
  { t with
    pageLength := t.pageLength - size file s, pos := t.pos + size file s
    bytesWritten := s.bytesWritten + size file s
    page := { t.page with bytes := (file.drop s.currentIfdStart).take (size file s) } }

inductive Pages (file : List UInt8) : State → List Page → Prop
  | stop {s : State} {r : Result} : Fits file s → finishPage file (endPage file s) = .inr (.ok r) →
    Pages file s [(endPage file s).page]
  | go {s t : State} {ps : List Page} : Fits file s → finishPage file (endPage file s) = .inl t →
    Pages file t ps → Pages file s ((endPage file s).page :: ps)

section Copy

variable {file : List UInt8} {s t : State}

theorem reaches_copied (L : Nat) (s : State) (hcopying : s.copying = true)
    (hlength : s.pageLength = L) (hfile : s.pos + L ≤ file.length)
    (hcount : s.bytesWritten + L < 2 ^ 31) :
    ∃ k, Reaches (step file) k s { s with
      pageLength := s.pageLength - L, pos := s.pos + L, bytesWritten := s.bytesWritten + L
      page := { s.page with bytes := s.page.bytes ++ (file.drop s.pos).take L } } := by
  induction L using Nat.strongRecOn generalizing s with
  | ind L ih =>
    by_cases hzero : L = 0
    · subst hzero
      refine ⟨0, ?_⟩
      simpa using Reaches.refl s
    · -- one read, and the rest
      obtain ⟨len, hlen, hle, hpos⟩ : ∃ len,
          (if s.pageLength < 4096 then s.pageLength.toNat else 4096) = len ∧ len ≤ L ∧ 0 < len := by
        by_cases hshort : s.pageLength < 4096
        · exact ⟨L, by rw [if_pos hshort, hlength, Int.toNat_natCast], Nat.le_refl L,
            Nat.pos_of_ne_zero hzero⟩
        · exact ⟨4096, if_neg hshort, by lia, by lia⟩
      have hgot : ((file.drop s.pos).take len).length = len := by
        rw [List.length_take, List.length_drop]
        lia
      have hround : step file s = .inl { s with
          pageLength := s.pageLength - len, pos := s.pos + len
          bytesWritten := s.bytesWritten + len
          page := { s.page with bytes := s.page.bytes ++ (file.drop s.pos).take len } } := by
        have hmore : 0 < s.pageLength := by lia
        have hroom : s.bytesWritten + len < 2 ^ 31 := by lia
        rw [step, if_pos hcopying, if_pos hmore]
        simp only [hlen, hgot, if_pos hroom]
      obtain ⟨k, hk⟩ := ih (L - len) (by lia) { s with
          pageLength := s.pageLength - len, pos := s.pos + len
          bytesWritten := s.bytesWritten + len
          page := { s.page with bytes := s.page.bytes ++ (file.drop s.pos).take len } }
        hcopying (by dsimp only; lia) (by dsimp only; lia) (by dsimp only; lia)
      have hrest : (file.drop s.pos).take len ++ (file.drop (s.pos + len)).take (L - len)
          = (file.drop s.pos).take L := by
        conv_rhs => rw [← Nat.add_sub_cancel' hle, List.take_add, List.drop_drop]
      have hsub : s.pageLength - len - (L - len : Nat) = s.pageLength - L := by lia
      dsimp only at hk
      rw [List.append_assoc, hrest, hsub, Nat.add_assoc, Nat.add_assoc, Nat.add_sub_cancel' hle]
        at hk
      exact ⟨_, (Reaches.step hround).trans hk⟩

theorem not_ok_of_long (hcopying : s.copying = true) (hmore : 0 < s.pageLength)
    (hlong : file.length < s.pos + s.pageLength ∨ 2 ^ 31 ≤ s.bytesWritten + s.pageLength)
    (n : Nat) (r : Result) : rounds (step file) n s ≠ .inr (.ok r) := by
  have hinv := @rounds_invariant _ _ (step file) (fun _ => True)
    (fun t => t.copying = true ∧ 0 < t.pageLength ∧
      (file.length < t.pos + t.pageLength ∨ 2 ^ 31 ≤ t.bytesWritten + t.pageLength))
    (fun x => x = .error ()) (fun t ht _ => ?_) n s ⟨hcopying, hmore, hlong⟩
    (along_of_forall (fun _ => trivial) n s)
  · intro h
    rw [h] at hinv
    cases hinv
  · obtain ⟨htc, htm, htl⟩ := ht
    rw [step, if_pos htc, if_pos htm]
    dsimp only
    generalize hlen : (if t.pageLength < 4096 then t.pageLength.toNat else 4096) = len
    have hle : (len : Int) ≤ t.pageLength := by
      rw [← hlen]
      split <;> lia
    generalize hgot : ((file.drop t.pos).take len) = got
    have hlength : got.length = min len (file.length - t.pos) := by
      rw [← hgot, List.length_take, List.length_drop]
    by_cases hroom : t.bytesWritten + got.length < 2 ^ 31
    · rw [if_pos hroom]
      refine ⟨htc, ?_, ?_⟩
      · dsimp only
        lia
      · dsimp only
        lia
    · rw [if_neg hroom]
      rfl

end Copy

section Runs

variable {file : List UInt8} {s t : State}

def nextPage (s : State) : State :=
  { s with
    cursor := ⟨s.cursor.nextIfdOffset, s.cursor.ifdCount, s.cursor.nextIfdOffset⟩
    currentIfdStart := s.cursor.nextIfdOffset, copying := false, done := s.done ++ [s.page] }

theorem finishPage_eq (file : List UInt8) (s : State) :
    (file.length < s.bytesWritten ∨ s.cursor.nextIfdOffset = 0) ∧
        (∃ status, finishPage file s = .inr (.ok ⟨status, s.done ++ [s.page]⟩))
      ∨ s.bytesWritten ≤ file.length ∧ s.cursor.nextIfdOffset ≠ 0 ∧
        finishPage file s = .inl (nextPage s) := by
  by_cases hmore : file.length < s.bytesWritten
  · exact .inl ⟨.inl hmore, -1, if_pos hmore⟩
  · by_cases hzero : s.cursor.nextIfdOffset = 0
    · exact .inl ⟨.inr hzero, 0, by rw [finishPage, if_neg hmore, if_pos hzero]⟩
    · exact .inr ⟨Nat.not_lt.mp hmore, hzero, by rw [finishPage, if_neg hmore, if_neg hzero]; rfl⟩

theorem finishPage_stop {file : List UInt8} {s : State} {r : Result}
    (h : finishPage file s = .inr (.ok r)) :
    (file.length < s.bytesWritten ∨ s.cursor.nextIfdOffset = 0) ∧
      ∃ status, r = ⟨status, s.done ++ [s.page]⟩ := by
  rcases finishPage_eq file s with ⟨hend, status, hstop⟩ | ⟨-, -, hgo⟩
  · rw [hstop] at h
    cases h
    exact ⟨hend, status, rfl⟩
  · rw [hgo] at h
    cases h

theorem finishPage_go {file : List UInt8} {s t : State} (h : finishPage file s = .inl t) :
    s.bytesWritten ≤ file.length ∧ s.cursor.nextIfdOffset ≠ 0 ∧ t = nextPage s := by
  rcases finishPage_eq file s with ⟨-, status, hstop⟩ | ⟨hmore, hsome, hgo⟩
  · rw [hstop] at h
    cases h
  · rw [hgo] at h
    exact ⟨hmore, hsome, (Sum.inl.inj h).symm⟩

theorem startPage_step (hcopying : s.copying = false) :
    Reaches (step file) 1 s (startPage file s) :=
  Reaches.step (if_neg (by rw [hcopying]; exact Bool.false_ne_true))

theorem reaches_endPage (hcopying : s.copying = false) (hfits : Fits file s) :
    ∃ k, 0 < k ∧ Reaches (step file) k s (endPage file s) := by
  have hstart : Reaches (step file) 1 s (startPage file s) := startPage_step hcopying
  by_cases hzero : size file s = 0
  · have hend : endPage file s = startPage file s := by
      rw [endPage, hzero]
      simp [startPage]
    rw [hend]
    exact ⟨1, Nat.one_pos, hstart⟩
  · obtain ⟨hfile, hcount⟩ := hfits.resolve_left hzero
    have hlength : (startPage file s).pageLength = (size file s : Nat) := by
      rw [size] at hzero ⊢
      lia
    obtain ⟨k, hk⟩ := reaches_copied (size file s) (startPage file s) rfl hlength hfile hcount
    have hend : endPage file s = { startPage file s with
        pageLength := (startPage file s).pageLength - size file s
        pos := (startPage file s).pos + size file s
        bytesWritten := (startPage file s).bytesWritten + size file s
        page := { (startPage file s).page with
          bytes := (startPage file s).page.bytes
            ++ (file.drop (startPage file s).pos).take (size file s) } } := rfl
    rw [hend]
    exact ⟨1 + k, by lia, hstart.trans hk⟩

theorem step_endPage (file : List UInt8) (s : State) :
    step file (endPage file s) = finishPage file (endPage file s) := by
  have hnone : ¬ 0 < (endPage file s).pageLength := by
    show ¬ 0 < (startPage file s).pageLength - ((startPage file s).pageLength.toNat : Int)
    omega
  have hcopying : (endPage file s).copying = true := rfl
  rw [step, if_pos hcopying, if_neg hnone]

theorem not_ok_of_not_fits (hcopying : s.copying = false) (hfits : ¬ Fits file s) (n : Nat)
    (r : Result) : rounds (step file) n s ≠ .inr (.ok r) := by
  intro h
  have hstart : Reaches (step file) 1 s (startPage file s) := startPage_step hcopying
  obtain ⟨-, hrest⟩ := hstart.of_ends h
  rw [Fits, size] at hfits
  push Not at hfits
  refine not_ok_of_long (s := startPage file s) rfl (by lia) ?_ _ r hrest
  have hpos : (startPage file s).pos = s.currentIfdStart := rfl
  have hwritten : (startPage file s).bytesWritten = s.bytesWritten := rfl
  rw [hpos, hwritten]
  by_cases hfile : s.currentIfdStart + (startPage file s).pageLength.toNat ≤ file.length
  · have hcount := hfits.2 hfile
    lia
  · lia

theorem pages_of_rounds (n : Nat) (hcopying : s.copying = false) {r : Result}
    (h : rounds (step file) n s = .inr (.ok r)) :
    ∃ ps, Pages file s ps ∧ r.pages = s.done ++ ps := by
  induction n using Nat.strongRecOn generalizing s with
  | ind n ih =>
    have hfits : Fits file s := by
      by_contra hfits
      exact not_ok_of_not_fits hcopying hfits n r h
    obtain ⟨k, hk, hreach⟩ := reaches_endPage hcopying hfits
    obtain ⟨hle, hrest⟩ := hreach.of_ends h
    obtain ⟨m, hm⟩ : ∃ m, n - k = m + 1 := by
      cases hn : n - k with
      | zero =>
        rw [hn] at hrest
        cases hrest
      | succ m => exact ⟨m, rfl⟩
    rw [hm, rounds, step_endPage] at hrest
    rcases finishPage_eq file (endPage file s) with ⟨-, status, hstop⟩ | ⟨-, -, hgo⟩
    · rw [hstop] at hrest
      cases hrest
      exact ⟨_, .stop hfits hstop, rfl⟩
    · rw [hgo] at hrest
      obtain ⟨ps, hps, hpages⟩ := ih m (by lia) rfl hrest
      refine ⟨_, .go hfits hgo hps, ?_⟩
      rw [hpages]
      exact List.append_assoc ..

theorem rounds_of_pages {ps : List Page} (h : Pages file s ps) (hcopying : s.copying = false) :
    ∃ n status, rounds (step file) n s = .inr (.ok ⟨status, s.done ++ ps⟩) := by
  induction h with
  | @stop s r hfits hstop =>
    obtain ⟨k, -, hreach⟩ := reaches_endPage hcopying hfits
    obtain ⟨-, status, rfl⟩ := finishPage_stop hstop
    have hlast : rounds (step file) 1 (endPage file s)
        = .inr (.ok ⟨status, s.done ++ [(endPage file s).page]⟩) := by
      rw [rounds, step_endPage, hstop]
      rfl
    exact ⟨_, status, hreach.ends hlast⟩
  | @go s t ps hfits hgo _ ih =>
    obtain ⟨k, -, hreach⟩ := reaches_endPage hcopying hfits
    obtain ⟨-, -, ht⟩ := finishPage_go hgo
    have hnext : Reaches (step file) 1 (endPage file s) t :=
      Reaches.step ((step_endPage file s).trans hgo)
    obtain ⟨n, status, hn⟩ := ih (by rw [ht]; rfl)
    have hdone : t.done ++ ps = s.done ++ (endPage file s).page :: ps := by
      rw [ht]
      exact List.append_assoc ..
    rw [hdone] at hn
    exact ⟨_, status, (hreach.trans hnext).ends hn⟩

theorem terminates_iff (file : List UInt8) (u : Stale) :
    Terminates file u ↔ file.length < 2 ^ 31 ∧ ∃ ps, Pages file (start file u) ps := by
  constructor
  · rintro ⟨r, hsmall, n, h⟩
    obtain ⟨ps, hps, -⟩ := pages_of_rounds n rfl h
    exact ⟨hsmall, ps, hps⟩
  · rintro ⟨hsmall, ps, hps⟩
    obtain ⟨n, status, h⟩ := rounds_of_pages hps rfl
    exact ⟨_, hsmall, n, h⟩

end Runs

/-! ## The lengths of the pages -/

section Lengths

variable {file : List UInt8} {s : State} {next current : Nat}

theorem pageLength_forward (h : current < next) (hnext : next < 2 ^ 31) :
    pageLength file next current = next - current := by
  have hint : IsInt ((next : Int) + -current) := ⟨by omega, by omega⟩
  have hdiff := wrapAdd_eq hint
  rw [pageLength, hdiff, if_neg (by omega)]
  rfl

theorem pageLength_rest (h : next ≤ current) (hcurrent : current < 2 ^ 31)
    (hfile : file.length < 2 ^ 31) : pageLength file next current = file.length - current := by
  have hint : IsInt ((next : Int) + -current) := ⟨by lia, by lia⟩
  have hint' : IsInt ((file.length : Int) + -current) := ⟨by lia, by lia⟩
  rw [pageLength, wrapAdd_eq hint, if_pos (by lia), wrapAdd_eq hint']
  rfl

def nextOf (file : List UInt8) (s : State) : Nat :=
  (readIfd file s.bigEndian s.cursor).nextIfdOffset

theorem size_forward (h : s.currentIfdStart < nextOf file s) (hnext : nextOf file s < 2 ^ 31) :
    size file s = nextOf file s - s.currentIfdStart := by
  have hlength : (startPage file s).pageLength = nextOf file s - s.currentIfdStart :=
    pageLength_forward h hnext
  rw [size]
  lia

theorem size_rest (h : nextOf file s ≤ s.currentIfdStart) (hcurrent : s.currentIfdStart < 2 ^ 31)
    (hfile : file.length < 2 ^ 31) : size file s = file.length - s.currentIfdStart := by
  have hlength : (startPage file s).pageLength = file.length - s.currentIfdStart :=
    pageLength_rest h hcurrent hfile
  rw [size]
  lia

theorem bytes_ne_nil (hcurrent : s.currentIfdStart < file.length) (hfile : file.length < 2 ^ 31) :
    (endPage file s).page.bytes ≠ [] := by
  have hint : IsInt ((file.length : Int) + -s.currentIfdStart) := ⟨by lia, by lia⟩
  have hpos : 0 < size file s := by
    rw [size]
    show 0 < (pageLength file (nextOf file s) s.currentIfdStart).toNat
    rw [pageLength, wrapAdd_eq hint]
    split <;> lia
  have hbytes : (endPage file s).page.bytes
      = (file.drop s.currentIfdStart).take (size file s) := rfl
  rw [hbytes]
  refine List.ne_nil_of_length_pos ?_
  rw [List.length_take, List.length_drop]
  lia

theorem pages_bytes_ne_nil {ps : List Page} (h : Pages file s ps)
    (hcurrent : s.currentIfdStart < file.length) (hfile : file.length < 2 ^ 31) :
    ps.flatMap Page.bytes ≠ [] := by
  have hne := bytes_ne_nil hcurrent hfile
  cases h with
  | stop _ _ => simpa using hne
  | go _ _ _ =>
    rw [List.flatMap_cons]
    exact fun hnil => hne (List.append_eq_nil_iff.mp hnil).1

end Lengths

/-! ## Chains as they are read -/

section Chains

variable {file : List UInt8} {s : State} {bigEndian : Bool} {n : Nat}

theorem pages_of_seen {current : Nat} {c : Cursor} (h : Seen bigEndian file current c n)
    (horder : s.bigEndian = bigEndian) (hcursor : s.cursor = c)
    (hcurrent : s.currentIfdStart = current) (hwritten : s.bytesWritten = current)
    (hinside : current < file.length) (hfile : file.length < 2 ^ 31) :
    ∃ ps, Pages file s ps ∧ ps.length = n ∧ (∀ p ∈ ps, p.length = p.bytes.length) ∧
      ps.flatMap Page.bytes = file.drop current := by
  induction h generalizing s with
  | @last current c hzero =>
    have hnext : nextOf file s = 0 := by rw [nextOf, horder, hcursor, hzero]
    have hsize : size file s = file.length - s.currentIfdStart :=
      size_rest (by lia) (by lia) hfile
    have hlength : (endPage file s).page.length = file.length - s.currentIfdStart :=
      pageLength_rest (by show nextOf file s ≤ _; lia) (by lia) hfile
    have hbytes : (endPage file s).page.bytes = file.drop current := by
      show (file.drop s.currentIfdStart).take (size file s) = _
      rw [hsize, hcurrent, ← List.length_drop, List.take_length]
    have hwritten' : (endPage file s).bytesWritten = file.length := by
      show s.bytesWritten + size file s = _
      lia
    rcases finishPage_eq file (endPage file s) with ⟨-, status, hstop⟩ | ⟨-, hgo, -⟩
    · refine ⟨_, .stop (.inr ⟨by lia, by lia⟩) hstop, rfl, fun p hp => ?_, ?_⟩
      · rw [List.mem_singleton.mp hp, hlength, hbytes, List.length_drop]
        lia
      · rw [List.flatMap_singleton, hbytes]
    · exact absurd hnext hgo
  | @more current c n hlt hin _ ih =>
    have hnext : nextOf file s = (readIfd file bigEndian c).nextIfdOffset := by
      rw [nextOf, horder, hcursor]
    have hsize : size file s = nextOf file s - s.currentIfdStart :=
      size_forward (by lia) (by lia)
    have hlength : (endPage file s).page.length = nextOf file s - s.currentIfdStart :=
      pageLength_forward (by show s.currentIfdStart < nextOf file s; lia)
        (by show nextOf file s < _; lia)
    have hbytes : (endPage file s).page.bytes = (file.drop current).take (nextOf file s - current) := by
      show (file.drop s.currentIfdStart).take (size file s) = _
      rw [hsize, hcurrent]
    have hwritten' : (endPage file s).bytesWritten = nextOf file s := by
      show s.bytesWritten + size file s = _
      lia
    rcases finishPage_eq file (endPage file s) with ⟨hstop, -⟩ | ⟨-, -, hgo⟩
    · have hsome : (endPage file s).cursor.nextIfdOffset = nextOf file s := rfl
      lia
    · have hcursor' : (nextPage (endPage file s)).cursor = ⟨(readIfd file bigEndian c).nextIfdOffset,
          (readIfd file bigEndian c).ifdCount, (readIfd file bigEndian c).nextIfdOffset⟩ := by
        rw [← horder, ← hcursor]
        rfl
      obtain ⟨ps, hps, hcount, hall, hrest⟩ := ih (s := nextPage (endPage file s)) horder hcursor'
        hnext (by show (endPage file s).bytesWritten = _; lia) hin
      refine ⟨_, .go (.inr ⟨by lia, by lia⟩) hgo hps, by rw [List.length_cons, hcount],
        List.forall_mem_cons.mpr ⟨?_, hall⟩, ?_⟩
      · rw [hlength, hbytes, List.length_take, List.length_drop]
        lia
      · have hsplit : nextOf file s = current + (nextOf file s - current) := by lia
        rw [List.flatMap_cons, hbytes, hrest, ← hnext]
        conv_lhs => rw [hsplit]
        rw [Nat.add_sub_cancel_left, ← List.drop_drop, List.take_append_drop]

theorem ntohs_eq (v : Nat) : ntohs v = v / 256 % 256 + 256 * (v % 256) := by
  have hbyte : ∀ w, (UInt8.ofNat w).toNat = w % 256 := fun w => UInt8.toNat_ofNat'
  rw [ntohs]
  simp only [bytes, List.reverse_cons, List.reverse_nil, List.nil_append, List.singleton_append,
    littleEndian, byteAt, List.getD_cons_zero, List.getD_cons_succ, hbyte]
  lia

theorem ntohs_lt (v : Nat) : ntohs v < 2 ^ 16 := by
  rw [ntohs_eq]
  lia

theorem readInto_past {pos k v : Nat} (h : file.length ≤ pos) (hv : v < 256 ^ k) :
    readInto file pos k v = v := by
  have hbytes := littleEndian_bytes hv []
  rw [List.append_nil] at hbytes
  rw [readInto, List.drop_of_length_le h]
  simpa using hbytes

theorem nextOf_lt (horder : s.bigEndian = true) : nextOf file s < 2 ^ 16 := by
  rw [nextOf, readIfd, horder]
  exact ntohs_lt _

theorem not_pages_at_end {ps : List Page} (h : Pages file s ps) (horder : s.bigEndian = true)
    (hoffset : s.cursor.ifdOffset = file.length) (hnext : s.cursor.nextIfdOffset = file.length)
    (hcurrent : s.currentIfdStart = file.length) (hwritten : s.bytesWritten = file.length)
    (hfile : 0 < file.length) (hsmall : file.length < 2 ^ 16) (hnone : ps.flatMap Page.bytes = []) :
    False := by
  -- the variable of the next offset keeps its value, with its bytes exchanged
  have hread : ∀ t : State, t.bigEndian = true → t.cursor.ifdOffset = file.length →
      t.cursor.nextIfdOffset = file.length → nextOf file t = ntohs file.length := by
    intro t ht ho hn
    have hcount := ntohs_lt (readInto file t.cursor.ifdOffset 2 t.cursor.ifdCount)
    rw [nextOf, readIfd, ht]
    simp only [if_true]
    generalize ntohs (readInto file t.cursor.ifdOffset 2 t.cursor.ifdCount) = count at hcount ⊢
    rw [Nat.mod_eq_of_lt (by lia), readInto_past (by lia) (by lia), hn]
  have hswap := ntohs_eq file.length
  induction h with
  | @stop s r hfits hstop =>
    have hx := hread s horder hoffset hnext
    obtain ⟨hend, -⟩ := finishPage_stop hstop
    have hsome : (endPage file s).cursor.nextIfdOffset = nextOf file s := rfl
    have hcount : (endPage file s).bytesWritten = s.bytesWritten + size file s := rfl
    have hsize : size file s = 0 := by
      rcases hfits with hzero | ⟨hle, -⟩
      · exact hzero
      · lia
    lia
  | @go s t ps hfits hgo hps ih =>
    have hx := hread s horder hoffset hnext
    rw [List.flatMap_cons, List.append_eq_nil_iff] at hnone
    obtain ⟨-, -, ht⟩ := finishPage_go hgo
    have htcurrent : t.currentIfdStart = nextOf file s := by rw [ht]; rfl
    rcases Nat.lt_trichotomy (nextOf file s) file.length with hlt | heq | hgt
    · exact pages_bytes_ne_nil hps (by lia) (by lia) hnone.2
    · have hsize : size file s = 0 := by
        rw [size_rest (by lia) (by lia) (by lia)]
        lia
      refine ih (by rw [ht]; exact horder) (by rw [ht]; exact heq) (by rw [ht]; exact heq)
        (by rw [htcurrent]; exact heq) ?_ hnone.2
      rw [ht]
      show s.bytesWritten + size file s = file.length
      lia
    · have hsize : size file s = nextOf file s - s.currentIfdStart :=
        size_forward (by lia) (by have := ntohs_lt file.length; lia)
      rcases hfits with hzero | ⟨hle, -⟩
      · lia
      · lia

theorem seen_of_pages {ps : List Page} (h : Pages file s ps) (horder : s.bigEndian = true)
    (hwritten : s.bytesWritten = s.currentIfdStart) (hinside : s.currentIfdStart < file.length)
    (hfile : file.length < 2 ^ 31)
    (hrest : ps.flatMap Page.bytes = file.drop s.currentIfdStart) :
    Seen true file s.currentIfdStart s.cursor ps.length := by
  induction h with
  | @stop s r hfits hstop =>
    obtain ⟨hend, -⟩ := finishPage_stop hstop
    have hcount : (endPage file s).bytesWritten = s.bytesWritten + size file s := rfl
    have hzero : nextOf file s = 0 := by
      rcases hend with hmore | hzero
      · rcases hfits with hnone | ⟨hle, -⟩ <;> lia
      · exact hzero
    rw [nextOf, horder] at hzero
    exact .last hzero
  | @go s t ps hfits hgo hps ih =>
    have hx : nextOf file s < 2 ^ 16 := nextOf_lt horder
    obtain ⟨-, -, ht⟩ := finishPage_go hgo
    have htcurrent : t.currentIfdStart = nextOf file s := by rw [ht]; rfl
    have htorder : t.bigEndian = true := by rw [ht]; exact horder
    have hbytes : (endPage file s).page.bytes
        = (file.drop s.currentIfdStart).take (size file s) := rfl
    have htwritten : t.bytesWritten = s.bytesWritten + size file s := by rw [ht]; rfl
    rw [List.flatMap_cons, hbytes] at hrest
    by_cases hback : nextOf file s ≤ s.currentIfdStart
    · -- the page went to the end, and another one has bytes
      have hsize := size_rest hback (by lia) hfile
      rw [hsize, ← List.length_drop, List.take_length] at hrest
      have hnil := List.append_right_eq_self.mp hrest
      exact absurd hnil (pages_bytes_ne_nil hps (by lia) hfile)
    · have hsize : size file s = nextOf file s - s.currentIfdStart :=
        size_forward (by lia) (by lia)
      have hsplit : nextOf file s = s.currentIfdStart + size file s := by lia
      have hle : nextOf file s ≤ file.length := by
        rcases hfits with hnone | ⟨hle, -⟩ <;> lia
      have hdrop : file.drop s.currentIfdStart
          = (file.drop s.currentIfdStart).take (size file s) ++ file.drop (nextOf file s) := by
        rw [hsplit, ← List.drop_drop, List.take_append_drop]
      have hrest' : ps.flatMap Page.bytes = file.drop (nextOf file s) :=
        List.append_cancel_left (hrest.trans hdrop)
      have hread : nextOf file s = (readIfd file true s.cursor).nextIfdOffset := by
        rw [nextOf, horder]
      have htcursor : t.cursor = ⟨nextOf file s, (readIfd file true s.cursor).ifdCount,
          nextOf file s⟩ := by
        rw [ht, hread, ← horder]
        rfl
      rcases Nat.lt_or_eq_of_le hle with hlt | heq
      · have hseen := ih htorder (by lia) (by lia) (by rw [htcurrent]; exact hrest')
        rw [htcursor, htcurrent, hread] at hseen
        exact .more (by lia) (by lia) hseen
      · rw [heq, List.drop_length] at hrest'
        refine (not_pages_at_end hps htorder ?_ ?_ (by lia) (by lia) (by lia) (by lia)
          hrest').elim
        · rw [htcursor]
          exact heq
        · rw [htcursor]
          exact heq

end Chains

/-! ## Well-formed files -/

section Files

variable {file : List UInt8} {n o : Nat}

theorem readInto_inside {pos k : Nat} (v : Nat) (h : pos + k ≤ file.length) :
    readInto file pos k v = number false file pos k := by
  have hlength : ((file.drop pos).take k).length = k := by
    rw [List.length_take, List.length_drop]
    lia
  have hrest : (bytes k v).drop k = [] := List.drop_of_length_le (by rw [length_bytes])
  rw [readInto, hlength, hrest, List.append_nil]
  rfl

theorem readIfd_inside {c : Cursor} (h : nextAt false file c.ifdOffset + 4 ≤ file.length)
    (hfile : file.length < 2 ^ 31) :
    (readIfd file false c).nextIfdOffset = number false file (nextAt false file c.ifdOffset) 4 := by
  have hnext : nextAt false file c.ifdOffset
      = c.ifdOffset + 2 + number false file c.ifdOffset 2 * 12 := rfl
  rw [readIfd]
  simp only [Bool.false_eq_true, if_false]
  rw [readInto_inside c.ifdCount (by lia), Nat.mod_eq_of_lt (by lia), ← hnext,
    readInto_inside _ h]

theorem Ifds.inside {bigEndian : Bool} (h : Ifds bigEndian file o n) : o < file.length := by
  have hnext : nextAt bigEndian file o = o + 2 + number bigEndian file o 2 * 12 := rfl
  cases h with
  | last h _ => lia
  | more h _ _ => lia

theorem seen_of_ifds (h : Ifds false file o n) (hfile : file.length < 2 ^ 31) {current : Nat}
    (hcurrent : current ≤ o) {c : Cursor} (hc : c.ifdOffset = o) :
    Seen false file current c n := by
  induction h generalizing current c with
  | @last o hin hzero =>
    refine .last ?_
    rw [readIfd_inside (by rw [hc]; exact hin) hfile, hc, hzero]
  | @more o n hin hlt hrest ih =>
    have hread : (readIfd file false c).nextIfdOffset = number false file (nextAt false file o) 4 := by
      rw [readIfd_inside (by rw [hc]; exact hin) hfile, hc]
    have hinside := hrest.inside
    exact .more (by lia) (by lia) (ih (by lia) hread)

variable (f : TiffFile) (u : Stale)

theorem TiffFile.length_pos : 0 < f.bytes.length := Nat.lt_of_le_of_lt (Nat.zero_le _) f.ifds.inside

theorem TiffFile.start_bigEndian : (start f.bytes u).bigEndian = f.bigEndian := by
  have horder := congrArg List.head? f.order
  rw [List.head?_take, if_neg (by decide)] at horder
  show decide (f.bytes.head? = some 77) = f.bigEndian
  rw [horder]
  cases f.bigEndian with
  | true => rfl
  | false => rfl

theorem splitsInto_iff :
    SplitsInto f.bytes u f.count ↔ f.bytes.length < 2 ^ 31 ∧
      (f.bigEndian = false ∨ Seen true f.bytes 0 (start f.bytes u).cursor f.count) := by
  have horder := f.start_bigEndian u
  have hpos := f.length_pos
  constructor
  · rintro ⟨r, ⟨hsmall, k, hr⟩, hcount, -, hall⟩
    refine ⟨hsmall, ?_⟩
    cases hbig : f.bigEndian with
    | false => exact .inl rfl
    | true =>
      right
      obtain ⟨ps, hps, hpages⟩ := pages_of_rounds k rfl hr
      have hpages' : r.pages = ps := hpages
      rw [hpages'] at hcount hall
      have hseen := seen_of_pages hps (horder.trans hbig) rfl hpos hsmall hall
      rw [hcount] at hseen
      exact hseen
  · rintro ⟨hsmall, hchain⟩
    have hseen : Seen f.bigEndian f.bytes 0 (start f.bytes u).cursor f.count := by
      cases hbig : f.bigEndian with
      | false =>
        have hifds := f.ifds
        rw [hbig] at hifds
        have hfirst : (start f.bytes u).cursor.ifdOffset = number false f.bytes 4 4 := by
          have hlittle : ¬ f.bytes.head? = some 77 := by
            intro h
            rw [← horder] at hbig
            exact absurd h (of_decide_eq_false hbig)
          have hheader : 4 + 4 ≤ f.bytes.length := by
            have hinside := f.ifds.inside
            have height := f.first
            lia
          show (if f.bytes.head? = some 77 then _ else readInto f.bytes 4 4 u.ifdOffset) = _
          rw [if_neg hlittle, readInto_inside _ hheader]
        exact seen_of_ifds hifds hsmall (Nat.zero_le _) hfirst
      | true =>
        rw [hbig] at hchain
        exact hchain.resolve_left (by decide)
    obtain ⟨ps, hps, hcount, hlengths, hall⟩ := pages_of_seen hseen (s := start f.bytes u) horder rfl
      rfl rfl hpos hsmall
    obtain ⟨k, status, hk⟩ := rounds_of_pages hps rfl
    exact ⟨_, ⟨hsmall, k, hk⟩, hcount, hlengths, hall⟩

end Files

def twoPages : List UInt8 :=
  [77, 77, 0, 42, 0, 0, 0, 8] ++ ([0, 1] ++ List.replicate 12 0 ++ [0, 0, 0, 26])
    ++ ([0, 1] ++ List.replicate 12 0 ++ [0, 0, 0, 0])

def twoPagesFile : TiffFile where
  bytes := twoPages
  bigEndian := true
  count := 2
  order := by decide
  magic := by decide
  first := by decide
  ifds := .more (by decide) (by decide) (.last (by decide) (by decide))

end Hplip.Hpijs.TiffPages
