import Hplip.Ip.FaxRows

/-!
# The sentinel of the fax encoder

Before it scans a row, the encoder stores 0x55 into the byte that holds the first position
behind the row. In a buffer of consecutive rows that byte is the first one of the following
row, or the last one of the row itself, with its last pixels.
-/

namespace Hplip.Ip

open Scan

variable {g g₁ g₂ : EncInst} {buf buf₁ buf₂ ref ref₁ ref₂ : List UInt8} {n : Nat}

/-! ## What a row is encoded from -/

/-- Two buffers with the same pixels up to `n`. -/
def SamePixels (n : Nat) (buf₁ buf₂ : List UInt8) : Prop := ∀ i < n, pix buf₁ i = pix buf₂ i

theorem scanTo_congr (h : SamePixels n buf₁ buf₂) {skip : Bool} {start r₁ r₂ : Nat}
    (h₁ : scanTo skip buf₁ start n = .ok r₁) (h₂ : scanTo skip buf₂ start n = .ok r₂) :
    r₁ = r₂ := by
  rw [(scanTo_ok h₁).2, (scanTo_ok h₂).2]
  exact next_congr fun k _ hk => h k hk

theorem encodeRuns_congr (h : SamePixels n buf₁ buf₂) {rounds start : Nat} {skip : Bool}
    (h₁ : encodeRuns buf₁ n rounds g start skip = .ok g₁)
    (h₂ : encodeRuns buf₂ n rounds g start skip = .ok g₂) : g₁ = g₂ := by
  induction rounds generalizing g start skip with
  | zero => cases h₁
  | succ rounds ih =>
    rw [encodeRuns] at h₁ h₂
    by_cases hlt : start < n
    · rw [if_pos hlt] at h₁ h₂
      obtain ⟨r₁, hr₁, h₁⟩ := bind_eq_ok.mp h₁
      obtain ⟨r₂, hr₂, h₂⟩ := bind_eq_ok.mp h₂
      obtain rfl := scanTo_congr h hr₁ hr₂
      exact ih h₁ h₂
    · rw [if_neg hlt] at h₁ h₂
      cases h₁
      cases h₂
      rfl

theorem scanIf_congr (h : SamePixels n buf₁ buf₂) {need skip : Bool} {start old r₁ r₂ : Nat}
    (h₁ : scanIf need skip buf₁ start n old = .ok r₁)
    (h₂ : scanIf need skip buf₂ start n old = .ok r₂) : r₁ = r₂ := by
  cases need with
  | true => exact scanTo_congr h h₁ h₂
  | false =>
    cases h₁
    cases h₂
    rfl

theorem putMode_congr (h : SamePixels n buf₁ buf₂) {s : Coding}
    {r₁ r₂ : EncInst × Coding × Need} (h₁ : putMode g buf₁ n s = .ok r₁)
    (h₂ : putMode g buf₂ n s = .ok r₂) : r₁ = r₂ := by
  rw [putMode] at h₁ h₂
  dsimp only at h₁ h₂
  by_cases hpass : s.b2 < s.a1
  · rw [if_pos hpass] at h₁ h₂
    exact Except.ok.inj (h₁.symm.trans h₂)
  · rw [if_neg hpass] at h₁ h₂
    by_cases hvert : -3 ≤ (s.a1 : Int) - s.b1 ∧ (s.a1 : Int) - s.b1 ≤ 3
    · rw [if_pos hvert] at h₁ h₂
      exact Except.ok.inj (h₁.symm.trans h₂)
    · rw [if_neg hvert] at h₁ h₂
      obtain ⟨a₁, ha₁, h₁⟩ := bind_eq_ok.mp h₁
      obtain ⟨a₂, ha₂, h₂⟩ := bind_eq_ok.mp h₂
      obtain rfl := scanTo_congr h ha₁ ha₂
      exact Except.ok.inj (h₁.symm.trans h₂)

theorem nextPositions_congr (h : SamePixels n buf₁ buf₂) {s s₁ s₂ : Coding} {need : Need}
    (h₁ : nextPositions buf₁ ref n s need = .ok s₁)
    (h₂ : nextPositions buf₂ ref n s need = .ok s₂) : s₁ = s₂ := by
  rw [nextPositions] at h₁ h₂
  obtain ⟨a₁, ha₁, h₁⟩ := bind_eq_ok.mp h₁
  obtain ⟨a₂, ha₂, h₂⟩ := bind_eq_ok.mp h₂
  obtain rfl := scanIf_congr h ha₁ ha₂
  exact Except.ok.inj (h₁.symm.trans h₂)

theorem encodeModes_congr (h : SamePixels n buf₁ buf₂) {rounds : Nat} {s : Coding}
    (h₁ : encodeModes buf₁ ref n rounds g s = .ok g₁)
    (h₂ : encodeModes buf₂ ref n rounds g s = .ok g₂) : g₁ = g₂ := by
  induction rounds generalizing g s with
  | zero => cases h₁
  | succ rounds ih =>
    rw [encodeModes] at h₁ h₂
    obtain ⟨r₁, hr₁, h₁⟩ := bind_eq_ok.mp h₁
    obtain ⟨r₂, hr₂, h₂⟩ := bind_eq_ok.mp h₂
    obtain rfl := putMode_congr h hr₁ hr₂
    obtain ⟨g', s', need⟩ := r₁
    dsimp only at h₁ h₂
    by_cases hdone : n ≤ s'.a0
    · rw [if_pos hdone] at h₁ h₂
      cases h₁
      cases h₂
      rfl
    · rw [if_neg hdone] at h₁ h₂
      obtain ⟨s₁, hs₁, h₁⟩ := bind_eq_ok.mp h₁
      obtain ⟨s₂, hs₂, h₂⟩ := bind_eq_ok.mp h₂
      obtain rfl := nextPositions_congr h hs₁ hs₂
      exact ih h₁ h₂

/-! ### The row with the sentinel -/

theorem encodeRow1d_congr {mr : Bool} {row₁ row₂ : List UInt8}
    (hsame : SamePixels n (withSentinel buf₁ n) (withSentinel buf₂ n))
    (h₁ : encodeRow1d g buf₁ n mr = .ok (g₁, row₁))
    (h₂ : encodeRow1d g buf₂ n mr = .ok (g₂, row₂)) : g₁ = g₂ := by
  obtain ⟨-, rfl, h₁⟩ := encodeRow1d_ok h₁
  obtain ⟨-, rfl, h₂⟩ := encodeRow1d_ok h₂
  exact encodeRuns_congr hsame h₁ h₂

theorem encodeRow2d_congr {mr : Bool} {row₁ row₂ prior₁ prior₂ : List UInt8}
    (hsame : SamePixels n (withSentinel buf₁ n) (withSentinel buf₂ n))
    (h₁ : encodeRow2d g buf₁ ref n mr = .ok (g₁, row₁, prior₁))
    (h₂ : encodeRow2d g buf₂ ref n mr = .ok (g₂, row₂, prior₂)) :
    g₁ = g₂ ∧ prior₁ = prior₂ := by
  obtain ⟨-, rfl, -, rfl, a, b, b', ha, hb, hb', h₁⟩ := encodeRow2d_ok h₁
  obtain ⟨-, rfl, -, rfl, c, d, d', hc, hd, hd', h₂⟩ := encodeRow2d_ok h₂
  obtain rfl := scanTo_congr hsame ha hc
  obtain rfl := Except.ok.inj (hb.symm.trans hd)
  obtain rfl := Except.ok.inj (hb'.symm.trans hd')
  exact ⟨encodeModes_congr hsame h₁ h₂, rfl⟩

theorem encodeRow_congr {row₁ row₂ : List UInt8}
    (hsame : SamePixels g.iRowLen (withSentinel buf₁ g.iRowLen) (withSentinel buf₂ g.iRowLen))
    (h₁ : encodeRow g buf₁ = .ok (g₁, row₁)) (h₂ : encodeRow g buf₂ = .ok (g₂, row₂)) :
    g₁ = g₂ := by
  rw [encodeRow] at h₁ h₂
  cases hfmt : g.wOutFmt with
  | mh =>
    rw [hfmt] at h₁ h₂
    obtain ⟨r₁, hr₁, h₁⟩ := bind_eq_ok.mp h₁
    obtain ⟨r₂, hr₂, h₂⟩ := bind_eq_ok.mp h₂
    cases h₁
    cases h₂
    rw [encodeRow1d_congr hsame hr₁ hr₂]
  | mr =>
    rw [hfmt] at h₁ h₂
    dsimp only at h₁ h₂
    by_cases hcycle : g.iRowNum % g.w12Cycle = 0
    · rw [if_pos hcycle] at h₁ h₂
      obtain ⟨r₁, hr₁, h₁⟩ := bind_eq_ok.mp h₁
      obtain ⟨r₂, hr₂, h₂⟩ := bind_eq_ok.mp h₂
      cases h₁
      cases h₂
      rw [encodeRow1d_congr hsame hr₁ hr₂]
    · rw [if_neg hcycle] at h₁ h₂
      obtain ⟨r₁, hr₁, h₁⟩ := bind_eq_ok.mp h₁
      obtain ⟨r₂, hr₂, h₂⟩ := bind_eq_ok.mp h₂
      cases h₁
      cases h₂
      obtain ⟨hg, hprior⟩ := encodeRow2d_congr hsame hr₁ hr₂
      rw [hg, hprior]
  | mmr =>
    rw [hfmt] at h₁ h₂
    obtain ⟨r₁, hr₁, h₁⟩ := bind_eq_ok.mp h₁
    obtain ⟨r₂, hr₂, h₂⟩ := bind_eq_ok.mp h₂
    cases h₁
    cases h₂
    obtain ⟨hg, hprior⟩ := encodeRow2d_congr hsame hr₁ hr₂
    rw [hg, hprior]

theorem encodeRow_inBuf {row : List UInt8} (h : encodeRow g buf = .ok (g₁, row)) :
    g.iRowLen / 8 < buf.length ∧ row = withSentinel buf g.iRowLen := by
  rw [encodeRow] at h
  cases hfmt : g.wOutFmt with
  | mh =>
    rw [hfmt] at h
    obtain ⟨r, hr, h⟩ := bind_eq_ok.mp h
    cases h
    obtain ⟨hlen, hrow, -⟩ := encodeRow1d_ok hr
    exact ⟨hlen, hrow⟩
  | mr =>
    rw [hfmt] at h
    dsimp only at h
    by_cases hcycle : g.iRowNum % g.w12Cycle = 0
    · rw [if_pos hcycle] at h
      obtain ⟨r, hr, h⟩ := bind_eq_ok.mp h
      cases h
      obtain ⟨hlen, hrow, -⟩ := encodeRow1d_ok hr
      exact ⟨hlen, hrow⟩
    · rw [if_neg hcycle] at h
      obtain ⟨r, hr, h⟩ := bind_eq_ok.mp h
      cases h
      obtain ⟨hlen, hrow, -⟩ := encodeRow2d_ok hr
      exact ⟨hlen, hrow⟩
  | mmr =>
    rw [hfmt] at h
    obtain ⟨r, hr, h⟩ := bind_eq_ok.mp h
    cases h
    obtain ⟨hlen, hrow, -⟩ := encodeRow2d_ok hr
    exact ⟨hlen, hrow⟩

/-! ### One call -/

/-- What no row changes: the instance less its output and the prior row. -/
def EncInst.config (g : EncInst) : EncInst := { g.rest with priorP := none }

theorem config_of_rest (h : g₁.rest = g₂.rest) : g₁.config = g₂.config := by
  rw [EncInst.config, EncInst.config, h]

theorem encodeRow_config {row : List UInt8} (h : encodeRow g buf = .ok (g₁, row)) :
    g₁.config = g.config := by
  rw [encodeRow] at h
  cases hfmt : g.wOutFmt with
  | mh =>
    rw [hfmt] at h
    obtain ⟨⟨g', row'⟩, hr, h⟩ := bind_eq_ok.mp h
    cases h
    obtain ⟨rs, -, hemits⟩ := encodeRow1d_emits hr
    exact config_of_rest ((putFillBits_rest g').trans hemits.rest)
  | mr =>
    rw [hfmt] at h
    dsimp only at h
    by_cases hcycle : g.iRowNum % g.w12Cycle = 0
    · rw [if_pos hcycle] at h
      obtain ⟨⟨g', row'⟩, hr, h⟩ := bind_eq_ok.mp h
      cases h
      obtain ⟨rs, -, hemits⟩ := encodeRow1d_emits hr
      exact config_of_rest ((putFillBits_rest g').trans hemits.rest)
    · rw [if_neg hcycle] at h
      obtain ⟨⟨g', row', prior⟩, hr, h⟩ := bind_eq_ok.mp h
      cases h
      obtain ⟨ms, -, hemits⟩ := encodeRow2d_emits hr
      have hfill := config_of_rest (putFillBits_rest { g' with priorP := some prior })
      exact hfill.trans (show g'.config = g.config from config_of_rest hemits.rest)
  | mmr =>
    rw [hfmt] at h
    obtain ⟨⟨g', row', prior⟩, hr, h⟩ := bind_eq_ok.mp h
    cases h
    obtain ⟨ms, -, hemits⟩ := encodeRow2d_emits hr
    exact (show g'.config = g.config from config_of_rest hemits.rest)

/-- `inBytes`. -/
def EncInst.rowBytes (g : EncInst) : Nat := (g.iRowLen + 7) / 8

theorem faxEncodeConvert_ok {inAvail outAvail : Nat} {e : Encoded} (hin : inAvail ≠ 0)
    (h : faxEncodeConvert g inAvail buf outAvail = .ok (.returned e)) :
    ∃ g₁, encodeRow { g with pbOut := [] } buf = .ok (g₁, withSentinel buf g.iRowLen) ∧
      g.iRowLen / 8 < buf.length ∧ e.outBytes = g₁.pbOut ∧
      e.inBuf = withSentinel buf g.iRowLen ∧ e.inUsed = g.rowBytes ∧
      e.xform = { g₁ with
        priorP := g₁.priorP.map fun prior =>
          copyRow prior (withSentinel buf g.iRowLen) g.rowBytes
        dwInNextPos := g₁.dwInNextPos + UInt32.ofNat g.rowBytes
        dwOutNextPos := g₁.dwOutNextPos + UInt32.ofNat g₁.pbOut.length
        iRowNum := g₁.iRowNum + 1
        pbOut := [] } := by
  rw [faxEncodeConvert] at h
  dsimp only at h
  rw [if_neg hin] at h
  by_cases hinsure : inAvail < (g.iRowLen + 7) / 8 ∨ outAvail = 0
  · rw [if_pos hinsure] at h
    cases h
  · rw [if_neg hinsure] at h
    obtain ⟨⟨g₁, row⟩, hrow, h⟩ := bind_eq_ok.mp h
    cases h
    obtain ⟨hlen, rfl⟩ := encodeRow_inBuf hrow
    exact ⟨g₁, hrow, hlen, rfl, rfl, rfl, rfl⟩

/-! ## Rows in one buffer -/

/-- `k` calls, each with the unconsumed rest of one buffer of `k` rows: the buffer that each
call found, and what it answered. -/
def encodeCalls (outAvail : Nat) :
    Nat → EncInst → List UInt8 → Except Fault (Called (List (List UInt8 × Encoded)))
  | 0, _, _ => .ok (.returned [])
  | k + 1, g, buf => do
    match ← faxEncodeConvert g ((k + 1) * g.rowBytes) buf outAvail with
    | .fatalError => .ok .fatalError
    | .returned e =>
      match ← encodeCalls outAvail k e.xform (e.inBuf.drop e.inUsed) with
      | .fatalError => .ok .fatalError
      | .returned calls => .ok (.returned ((buf, e) :: calls))

/-- A call for each row, in a buffer of its own with other memory behind it: the bytes that
each call emitted. -/
def encodePrivate (outAvail : Nat) (behind : List UInt8) :
    List (List UInt8) → EncInst → Except Fault (Called (List (List UInt8)))
  | [], _ => .ok (.returned [])
  | row :: rows, g => do
    match ← faxEncodeConvert g g.rowBytes (row ++ behind) outAvail with
    | .fatalError => .ok .fatalError
    | .returned e =>
      match ← encodePrivate outAvail behind rows e.xform with
      | .fatalError => .ok .fatalError
      | .returned outs => .ok (.returned (e.outBytes :: outs))

/-- The first `k` rows of a buffer. -/
def rowsOf (rowBytes : Nat) : Nat → List UInt8 → List (List UInt8)
  | 0, _ => []
  | k + 1, buf => buf.take rowBytes :: rowsOf rowBytes k (buf.drop rowBytes)

/-- A call changed no pixel of its row, and no byte beyond what it used. -/
structure Untouched (n : Nat) (buf : List UInt8) (e : Encoded) : Prop where
  pixels : ∀ i < n, pix e.inBuf i = pix buf i
  beyond : ∀ j, e.inUsed ≤ j → e.inBuf[j]? = buf[j]?

/-- The byte that the sentinel is stored into is the sentinel already, as far as it is not
padding of the row: behind a row of whole bytes all of it, otherwise the last pixels. -/
def Harmless (buf : List UInt8) (n : Nat) : Prop :=
  if n % 8 = 0 then buf.getD (n / 8) 0 = 0x55
  else ∀ i < n % 8, bytePix (buf.getD (n / 8) 0) i = bytePix 0x55 i

instance (buf : List UInt8) (n : Nat) : Decidable (Harmless buf n) := by
  unfold Harmless
  infer_instance

theorem getD_withSentinel (hlen : n / 8 < buf.length) (j : Nat) :
    (withSentinel buf n).getD j 0 = if j = n / 8 then 0x55 else buf.getD j 0 := by
  rw [withSentinel, List.getD_eq_getElem?_getD, List.getElem?_set]
  by_cases h : n / 8 = j
  · subst h
    simp [hlen]
  · rw [if_neg h, if_neg (Ne.symm h), List.getD_eq_getElem?_getD]

theorem untouched_iff {e : Encoded} (hlen : n / 8 < buf.length)
    (hbuf : e.inBuf = withSentinel buf n) (hused : e.inUsed = (n + 7) / 8) :
    Untouched n buf e ↔ Harmless buf n := by
  by_cases hmod : n % 8 = 0
  · rw [Harmless, if_pos hmod]
    constructor
    · intro h
      have hbyte := h.beyond (n / 8) (by lia)
      rw [hbuf] at hbyte
      have hget := congrArg (fun o => o.getD 0) hbyte
      rw [← List.getD_eq_getElem?_getD, ← List.getD_eq_getElem?_getD, getD_withSentinel hlen,
        if_pos rfl] at hget
      exact hget.symm
    · intro h
      have hsame : withSentinel buf n = buf := by
        rw [List.getD_eq_getElem buf 0 hlen] at h
        rw [withSentinel, ← h, List.set_getElem_self]
      rw [← hbuf] at hsame
      exact ⟨fun i _ => by rw [hsame], fun j _ => by rw [hsame]⟩
  · rw [Harmless, if_neg hmod]
    constructor
    · intro h i hi
      have hpix := h.pixels (8 * (n / 8) + i) (by lia)
      rw [hbuf, pix_add _ _ (by lia), pix_add _ _ (by lia), getD_withSentinel hlen,
        if_pos rfl] at hpix
      exact hpix.symm
    · intro h
      constructor
      · intro i hi
        rw [hbuf, pix, getD_withSentinel hlen, pix]
        by_cases hlast : i / 8 = n / 8
        · rw [if_pos hlast, hlast]
          exact (h (i % 8) (by lia)).symm
        · rw [if_neg hlast]
      · intro j hj
        rw [hbuf, withSentinel, List.getElem?_set_ne (by lia)]

theorem drop_withSentinel (hlen : n / 8 < buf.length) (h : Harmless buf n) :
    (withSentinel buf n).drop ((n + 7) / 8) = buf.drop ((n + 7) / 8) := by
  by_cases hmod : n % 8 = 0
  · rw [Harmless, if_pos hmod, List.getD_eq_getElem buf 0 hlen] at h
    rw [withSentinel, ← h, List.set_getElem_self]
  · rw [withSentinel, List.drop_set_of_lt (by lia)]

/-! ### The same row in another buffer -/

theorem take_withSentinel {k : Nat} (h : buf₁.take k = buf₂.take k) :
    (withSentinel buf₁ n).take k = (withSentinel buf₂ n).take k := by
  rw [withSentinel, withSentinel, List.take_set, List.take_set, h]

theorem samePixels_of_take (h : buf₁.take ((n + 7) / 8) = buf₂.take ((n + 7) / 8)) :
    SamePixels n buf₁ buf₂ := by
  intro i hi
  have hget : ∀ buf : List UInt8, (buf.take ((n + 7) / 8)).getD (i / 8) 0 = buf.getD (i / 8) 0 := by
    intro buf
    rw [List.getD_eq_getElem?_getD, List.getElem?_take_of_lt (by lia),
      ← List.getD_eq_getElem?_getD]
  rw [pix, pix, ← hget buf₁, h, hget buf₂]

theorem faxEncodeConvert_congr {in₁ in₂ outAvail : Nat} {e₁ e₂ : Encoded}
    (hin₁ : in₁ ≠ 0) (hin₂ : in₂ ≠ 0)
    (hrow : buf₁.take g.rowBytes = buf₂.take g.rowBytes)
    (h₁ : faxEncodeConvert g in₁ buf₁ outAvail = .ok (.returned e₁))
    (h₂ : faxEncodeConvert g in₂ buf₂ outAvail = .ok (.returned e₂)) :
    e₁.outBytes = e₂.outBytes ∧ e₁.xform = e₂.xform := by
  obtain ⟨g₁, hr₁, -, hout₁, -, -, hx₁⟩ := faxEncodeConvert_ok hin₁ h₁
  obtain ⟨g₂, hr₂, -, hout₂, -, -, hx₂⟩ := faxEncodeConvert_ok hin₂ h₂
  have htake := take_withSentinel (n := g.iRowLen) hrow
  obtain rfl := encodeRow_congr (g := { g with pbOut := [] }) (samePixels_of_take htake) hr₁ hr₂
  refine ⟨by rw [hout₁, hout₂], ?_⟩
  have hcopy : ∀ prior, copyRow prior (withSentinel buf₁ g.iRowLen) g.rowBytes
      = copyRow prior (withSentinel buf₂ g.iRowLen) g.rowBytes := by
    intro prior
    rw [copyRow, copyRow, htake]
  rw [hx₁, hx₂]
  simp only [hcopy]

/-! ## Whole buffers -/

variable {outAvail k : Nat} {calls : List (List UInt8 × Encoded)}

theorem encodeCalls_succ (h : encodeCalls outAvail (k + 1) g buf = .ok (.returned calls)) :
    ∃ e calls', faxEncodeConvert g ((k + 1) * g.rowBytes) buf outAvail = .ok (.returned e) ∧
      encodeCalls outAvail k e.xform (e.inBuf.drop e.inUsed) = .ok (.returned calls') ∧
      calls = (buf, e) :: calls' := by
  rw [encodeCalls] at h
  obtain ⟨r, hr, h⟩ := bind_eq_ok.mp h
  cases r with
  | fatalError => cases h
  | returned e =>
    obtain ⟨r', hr', h⟩ := bind_eq_ok.mp h
    cases r' with
    | fatalError => cases h
    | returned calls' =>
      cases h
      exact ⟨e, calls', hr, hr', rfl⟩

theorem encodePrivate_cons {behind row : List UInt8} {rows outs : List (List UInt8)}
    (h : encodePrivate outAvail behind (row :: rows) g = .ok (.returned outs)) :
    ∃ e outs', faxEncodeConvert g g.rowBytes (row ++ behind) outAvail = .ok (.returned e) ∧
      encodePrivate outAvail behind rows e.xform = .ok (.returned outs') ∧
      outs = e.outBytes :: outs' := by
  rw [encodePrivate] at h
  obtain ⟨r, hr, h⟩ := bind_eq_ok.mp h
  cases r with
  | fatalError => cases h
  | returned e =>
    obtain ⟨r', hr', h⟩ := bind_eq_ok.mp h
    cases r' with
    | fatalError => cases h
    | returned outs' =>
      cases h
      exact ⟨e, outs', hr, hr', rfl⟩

theorem xform_iRowLen {inAvail : Nat} {e : Encoded} (hin : inAvail ≠ 0)
    (h : faxEncodeConvert g inAvail buf outAvail = .ok (.returned e)) :
    e.xform.iRowLen = g.iRowLen := by
  obtain ⟨g₁, hrow, -, -, -, -, hx⟩ := faxEncodeConvert_ok hin h
  have hlen := congrArg EncInst.iRowLen (encodeRow_config hrow)
  rw [hx]
  exact hlen

theorem encodeCalls_untouched_iff (hrow : 0 < g.iRowLen)
    (h : encodeCalls outAvail k g buf = .ok (.returned calls)) :
    (∀ c ∈ calls, Untouched g.iRowLen c.1 c.2) ↔
      ∀ i < k, Harmless (buf.drop (i * g.rowBytes)) g.iRowLen := by
  induction k generalizing g buf calls with
  | zero =>
    cases h
    simp
  | succ k ih =>
    obtain ⟨e, calls', hconv, hcalls, rfl⟩ := encodeCalls_succ h
    have hbytes : 0 < g.rowBytes := by rw [EncInst.rowBytes]; lia
    have hin : (k + 1) * g.rowBytes ≠ 0 := Nat.ne_of_gt (Nat.mul_pos (Nat.succ_pos k) hbytes)
    obtain ⟨g₁, -, hlen, -, hbuf, hused, -⟩ := faxEncodeConvert_ok hin hconv
    have hfirst := untouched_iff hlen hbuf hused
    have hwidth := xform_iRowLen hin hconv
    have hsize : e.xform.rowBytes = g.rowBytes := by rw [EncInst.rowBytes, hwidth, EncInst.rowBytes]
    have hrest := ih (hwidth ▸ hrow) hcalls
    rw [hwidth, hsize] at hrest
    have hdrop : Harmless buf g.iRowLen → ∀ i,
        (e.inBuf.drop e.inUsed).drop (i * g.rowBytes) = buf.drop ((i + 1) * g.rowBytes) := by
      intro hharm i
      rw [hbuf, hused, EncInst.rowBytes, drop_withSentinel hlen hharm, List.drop_drop,
        Nat.add_mul, Nat.one_mul, Nat.add_comm]
    constructor
    · intro hall
      have hharm := hfirst.mp (hall (buf, e) (List.mem_cons_self ..))
      intro i hi
      cases i with
      | zero => rwa [Nat.zero_mul, List.drop_zero]
      | succ i =>
        have := hrest.mp (fun c hc => hall c (List.mem_cons_of_mem _ hc)) i (by lia)
        rwa [hdrop hharm] at this
    · intro hall
      have hharm := hall 0 (Nat.succ_pos k)
      rw [Nat.zero_mul, List.drop_zero] at hharm
      intro c hc
      rcases List.mem_cons.mp hc with rfl | hc
      · exact hfirst.mpr hharm
      · refine hrest.mpr (fun i hi => ?_) c hc
        rw [hdrop hharm]
        exact hall (i + 1) (by lia)

theorem encodeCalls_eq_private (hrow : 0 < g.iRowLen)
    (h : encodeCalls outAvail k g buf = .ok (.returned calls))
    (hharm : ∀ i < k, Harmless (buf.drop (i * g.rowBytes)) g.iRowLen)
    {behind : List UInt8} {outs : List (List UInt8)}
    (hp : encodePrivate outAvail behind (rowsOf g.rowBytes k buf) g = .ok (.returned outs)) :
    outs = calls.map fun c => c.2.outBytes := by
  induction k generalizing g buf calls outs with
  | zero =>
    cases h
    cases hp
    rfl
  | succ k ih =>
    obtain ⟨e, calls', hconv, hcalls, rfl⟩ := encodeCalls_succ h
    obtain ⟨e', outs', hconv', hp', rfl⟩ := encodePrivate_cons hp
    have hbytes : 0 < g.rowBytes := by rw [EncInst.rowBytes]; lia
    have hin : (k + 1) * g.rowBytes ≠ 0 := Nat.ne_of_gt (Nat.mul_pos (Nat.succ_pos k) hbytes)
    obtain ⟨g₁, -, hlen, -, hbuf, hused, -⟩ := faxEncodeConvert_ok hin hconv
    have hlong : g.rowBytes ≤ buf.length := by rw [EncInst.rowBytes]; lia
    have htake : (buf.take g.rowBytes ++ behind).take g.rowBytes = buf.take g.rowBytes := by
      rw [List.take_append_of_le_length (by rw [List.length_take]; lia), List.take_take,
        Nat.min_self]
    obtain ⟨hout, hxform⟩ :=
      faxEncodeConvert_congr (Nat.ne_of_gt hbytes) hin htake hconv' hconv
    have hwidth := xform_iRowLen hin hconv
    have hsize : e.xform.rowBytes = g.rowBytes := by rw [EncInst.rowBytes, hwidth, EncInst.rowBytes]
    have hfirst := hharm 0 (Nat.succ_pos k)
    rw [Nat.zero_mul, List.drop_zero] at hfirst
    have hdrop : e.inBuf.drop e.inUsed = buf.drop g.rowBytes := by
      rw [hbuf, hused, EncInst.rowBytes, drop_withSentinel hlen hfirst]
    rw [hdrop] at hcalls
    rw [hxform] at hp'
    rw [List.map_cons, hout]
    congr 1
    refine ih (hwidth ▸ hrow) hcalls (fun i hi => ?_) (hsize ▸ hp')
    rw [hwidth, hsize, List.drop_drop, Nat.add_comm, ← Nat.succ_mul]
    exact hharm (i + 1) (by lia)

/-- **When rows of one buffer are encoded independently.** In calls that return, every row
is encoded as it is and nothing behind it changes, and the bytes are those of the rows in
buffers of their own, if and only if the sentinel is harmless behind every row. -/
theorem encodeCalls_independent_iff (hrow : 0 < g.iRowLen)
    (h : encodeCalls outAvail k g buf = .ok (.returned calls)) :
    ((∀ c ∈ calls, Untouched g.iRowLen c.1 c.2) ∧
      ∀ behind outs,
        encodePrivate outAvail behind (rowsOf g.rowBytes k buf) g = .ok (.returned outs) →
          outs = calls.map fun c => c.2.outBytes) ↔
      ∀ i < k, Harmless (buf.drop (i * g.rowBytes)) g.iRowLen := by
  constructor
  · intro hind
    exact (encodeCalls_untouched_iff hrow h).mp hind.1
  · intro hharm
    exact ⟨(encodeCalls_untouched_iff hrow h).mpr hharm, fun _ _ hp =>
      encodeCalls_eq_private hrow h hharm hp⟩

def twoRows : EncInst := faxEncodeGetActualTraits (faxEncodeOpenXform .mh 0) 8 (200 * 2 ^ 16) []

def returnedCalls {α : Type} : Except Fault (Called (List α)) → List α
  | .ok (.returned l) => l
  | _ => []

/-- The sentinel behind the first of two white rows blackens four pixels of the second. -/
theorem not_independent_two :
    ¬ ∀ (g : EncInst) (k outAvail : Nat) (buf behind : List UInt8)
      (calls : List (List UInt8 × Encoded)) (outs : List (List UInt8)),
      0 < g.iRowLen → encodeCalls outAvail k g buf = .ok (.returned calls) →
        encodePrivate outAvail behind (rowsOf g.rowBytes k buf) g = .ok (.returned outs) →
          outs = calls.map fun c => c.2.outBytes := by
  intro h
  have hcalls : encodeCalls 100 2 twoRows [0, 0, 0]
      = .ok (.returned (returnedCalls (encodeCalls 100 2 twoRows [0, 0, 0]))) := by
    decide +kernel
  have houts : encodePrivate 100 [0] (rowsOf twoRows.rowBytes 2 [0, 0, 0]) twoRows
      = .ok (.returned (returnedCalls
          (encodePrivate 100 [0] (rowsOf twoRows.rowBytes 2 [0, 0, 0]) twoRows))) := by
    decide +kernel
  have hsame := h twoRows 2 100 [0, 0, 0] [0] _ _ (by decide) hcalls houts
  revert hsame
  decide +kernel

/-- Where the second row starts with the sentinel's pixels, and so does what is behind it, the
rows are independent. -/
theorem encodeCalls_independent_iff_two :
    0 < twoRows.iRowLen ∧
    encodeCalls 100 2 twoRows [0, 0x55, 0x55]
      = .ok (.returned (returnedCalls (encodeCalls 100 2 twoRows [0, 0x55, 0x55]))) ∧
    (((∀ c ∈ returnedCalls (encodeCalls 100 2 twoRows [0, 0x55, 0x55]),
        Untouched twoRows.iRowLen c.1 c.2) ∧
      ∀ behind outs,
        encodePrivate 100 behind (rowsOf twoRows.rowBytes 2 [0, 0x55, 0x55]) twoRows
            = .ok (.returned outs) →
          outs = (returnedCalls (encodeCalls 100 2 twoRows [0, 0x55, 0x55])).map
            fun c => c.2.outBytes) ↔
      ∀ i < 2, Harmless (([0, 0x55, 0x55] : List UInt8).drop (i * twoRows.rowBytes))
        twoRows.iRowLen) :=
  have hcalls : encodeCalls 100 2 twoRows [0, 0x55, 0x55]
      = .ok (.returned (returnedCalls (encodeCalls 100 2 twoRows [0, 0x55, 0x55]))) := by
    decide +kernel
  ⟨by decide, hcalls, encodeCalls_independent_iff (by decide) hcalls⟩

end Hplip.Ip
