import Hplip.Ip.Scale

/-!
# Rows blended pixel by pixel

What `contone_scale_row` puts into an output row, compared with the rows it blends.
-/

namespace Hplip.Ip.Scale

open Loop

/-! ## Bytes -/

theorem eighths_between {k a b : Nat} (h0 : 1 ≤ k) (h7 : k ≤ 7) :
    (a ≤ eighths k a b + 3 ∨ b ≤ eighths k a b + 3)
      ∧ (eighths k a b ≤ a ∨ eighths k a b ≤ b) := by
  have hk : k = 1 ∨ k = 2 ∨ k = 3 ∨ k = 4 ∨ k = 5 ∨ k = 6 ∨ k = 7 := by lia
  rcases hk with rfl | rfl | rfl | rfl | rfl | rfl | rfl
  all_goals
    simp only [eighths]
    omega

theorem byte_le (r : Row) (i : Nat) : byte r i ≤ 255 := by
  have := (r.getD i 0).toNat_lt
  unfold byte
  omega

theorem sum_zipWith_le (ws : List Nat) {bs : List Nat} {hi : Nat} (h : ∀ b ∈ bs, b ≤ hi) :
    (List.zipWith (· * ·) ws bs).sum ≤ ws.sum * hi := by
  induction ws generalizing bs with
  | nil => simp
  | cons w ws ih =>
    cases bs with
    | nil => simp
    | cons b bs =>
      have hb := Nat.mul_le_mul_left w (h b List.mem_cons_self)
      have hrest := ih fun c hc => h c (List.mem_cons_of_mem _ hc)
      rw [List.zipWith_cons_cons, List.sum_cons, List.sum_cons, Nat.add_mul]
      lia

theorem le_sum_zipWith {ws bs : List Nat} (lo : Nat) (hlen : ws.length = bs.length)
    (h : ∀ b ∈ bs, lo ≤ b) : ws.sum * lo ≤ (List.zipWith (· * ·) ws bs).sum := by
  induction ws generalizing bs with
  | nil => simp
  | cons w ws ih =>
    cases bs with
    | nil => simp at hlen
    | cons b bs =>
      have hb := Nat.mul_le_mul_left w (h b List.mem_cons_self)
      have hrest := ih (by simpa using hlen) fun c hc => h c (List.mem_cons_of_mem _ hc)
      rw [List.zipWith_cons_cons, List.sum_cons, List.sum_cons, Nat.add_mul]
      lia

theorem weigh_between {ws : List Nat} (bs : List Nat) (hlen : ws.length = bs.length)
    (hws : ws.sum = 256) (hbs : ∀ b ∈ bs, b ≤ 255) :
    (∃ b ∈ bs, b ≤ (weigh ws bs).toNat) ∧ ∃ b ∈ bs, (weigh ws bs).toNat ≤ b := by
  have hle := sum_zipWith_le ws hbs
  rw [hws] at hle
  have hval : (weigh ws bs).toNat = (List.zipWith (· * ·) ws bs).sum / 256 := by
    -- neither the sum of 32 bits nor the byte of it overflows
    have hword : (List.zipWith (· * ·) ws bs).sum < 2 ^ 32 := Nat.lt_of_le_of_lt hle (by decide)
    have hbyte : (List.zipWith (· * ·) ws bs).sum / 256 < 2 ^ 8 :=
      Nat.div_lt_of_lt_mul (Nat.lt_of_le_of_lt hle (by decide))
    rw [weigh, Nat.toUInt8, UInt8.toNat_ofNat', Nat.mod_eq_of_lt hword, Nat.mod_eq_of_lt hbyte]
  rw [hval]
  constructor
  · by_contra hcon
    push Not at hcon
    have hsum := le_sum_zipWith ((List.zipWith (· * ·) ws bs).sum / 256 + 1) hlen hcon
    rw [hws] at hsum
    lia
  · by_contra hcon
    push Not at hcon
    by_cases hzero : (List.zipWith (· * ·) ws bs).sum / 256 = 0
    · cases bs with
      | nil =>
        cases ws with
        | nil => simp at hws
        | cons w ws => simp at hlen
      | cons b bs =>
        have hb := hcon b List.mem_cons_self
        lia
    · have hle : ∀ b ∈ bs, b ≤ (List.zipWith (· * ·) ws bs).sum / 256 - 1 := by
        intro b hb
        have := hcon b hb
        lia
      have hsum := sum_zipWith_le ws hle
      rw [hws] at hsum
      lia

theorem rowWeights_spec {n first mid : Nat} (hn : 2 ≤ n) (h : first + (n - 2) * mid < 0x10000) :
    (rowWeights n first mid).length = n ∧ (rowWeights n first mid).sum = 256 := by
  have hmid : (n - 2) * (mid / 256) * 256 ≤ (n - 2) * mid := by
    rw [Nat.mul_assoc]
    exact Nat.mul_le_mul_left _ (Nat.div_mul_le_self mid 256)
  have hsum : first / 256 + (n - 2) * (mid / 256) ≤ 256 := by lia
  constructor
  · simp only [rowWeights, List.length_cons, List.length_append, List.length_replicate,
      List.length_nil]
    lia
  · simp only [rowWeights, List.sum_cons, List.sum_append, List.sum_replicate_nat,
      List.sum_nil]
    lia

/-! ## Rows -/

def savedRows (g : ScInst) : List Row := (List.range g.nSavedRows).map g.rows

/-- A row whose bytes lie between the bytes of the rows blended, with a rounding loss of at
most three. -/
def Blended (w : Nat) (sources : List Row) (out : Row) : Prop :=
  ∀ i, i < w → (∃ r ∈ sources, byte r i ≤ byte out i + 3) ∧ ∃ r ∈ sources, byte out i ≤ byte r i

def Fractional (b : Blend) : Prop :=
  b.1 = 2 ∧ 1 ≤ (b.2 + 0x1000) / 0x2000 ∧ (b.2 + 0x1000) / 0x2000 ≤ 7

instance : DecidablePred Fractional := fun b => inferInstanceAs (Decidable (b.1 = 2 ∧ _ ∧ _))

variable {g : ScInst} {b : Blend}

theorem mem_savedRows {u : Nat} (h : u < g.nSavedRows) : g.rows u ∈ savedRows g :=
  List.mem_map.mpr ⟨u, List.mem_range.mpr h, rfl⟩

theorem byte_take {r : Row} {w i : Nat} (h : i < w) : byte (r.take w) i = byte r i := by
  simp [byte, List.getD, h]

theorem byte_replicate {x : UInt8} {w i : Nat} (h : i < w) :
    byte (List.replicate w x) i = x.toNat := by
  simp [byte, List.getD, h]

theorem blended_take {u : Nat} (h : u < g.nSavedRows) :
    Blended g.outRowNbytes (savedRows g) ((g.rows u).take g.outRowNbytes) := by
  intro i hi
  refine ⟨⟨_, mem_savedRows h, ?_⟩, _, mem_savedRows h, ?_⟩
  · rw [byte_take hi]
    omega
  · rw [byte_take hi]

theorem madeRow_fractional (h : Fractional b) : madeRow g b
    = List.replicate g.outRowNbytes
      (eighths ((b.2 + 0x1000) / 0x2000) (byte (g.rows 0) 0) (byte (g.rows 1) 0)).toUInt8 := by
  obtain ⟨h2, h1, h7⟩ := h
  have hrow : weightTwoRows g b.2 = some (List.replicate g.outRowNbytes
      (eighths ((b.2 + 0x1000) / 0x2000) (byte (g.rows 0) 0) (byte (g.rows 1) 0)).toUInt8) := by
    unfold weightTwoRows
    split
    · omega
    · omega
    · rw [check_pos (by omega)]
      rfl
  rw [madeRow, weightNRows, h2, check_pos ⟨Nat.le_refl 2, two_le_maxRowsAp⟩]
  simp [hrow]

theorem madeRow_whole (h2 : b.1 = 2) (hw : b.2 ≤ 0x10000) (h : ¬ Fractional b) :
    ∃ u, u < 2 ∧ madeRow g b = (g.rows u).take g.outRowNbytes := by
  have hk : (b.2 + 0x1000) / 0x2000 = 0 ∨ (b.2 + 0x1000) / 0x2000 = 8 := by
    by_contra hcon
    push Not at hcon
    exact h ⟨h2, by lia, by lia⟩
  rcases hk with hk | hk
  · refine ⟨1, by decide, ?_⟩
    rw [madeRow, weightNRows, h2, check_pos ⟨Nat.le_refl 2, two_le_maxRowsAp⟩]
    simp [weightTwoRows, hk]
  · refine ⟨0, by decide, ?_⟩
    rw [madeRow, weightNRows, h2, check_pos ⟨Nat.le_refl 2, two_le_maxRowsAp⟩]
    simp [weightTwoRows, hk]

theorem madeRow_many (h3 : 3 ≤ b.1) (h6 : b.1 ≤ maxRowsAp) : madeRow g b
    = (List.range g.outRowNbytes).map fun i => weigh (rowWeights b.1 b.2 g.vertFac)
      ((List.range b.1).map fun u => byte (g.rows u) i) := by
  rw [madeRow, weightNRows, check_pos ⟨by omega, h6⟩]
  simp [show b.1 ≠ 2 by omega]

theorem blended_many (hsaved : b.1 = g.nSavedRows) (h3 : 3 ≤ b.1) (h6 : b.1 ≤ maxRowsAp)
    (hpos : b.2 + (b.1 - 2) * g.vertFac < 0x10000) :
    Blended g.outRowNbytes (savedRows g) (madeRow g b) := by
  intro i hi
  obtain ⟨hlen, hsum⟩ := rowWeights_spec (by lia : 2 ≤ b.1) hpos
  have hbyte : byte (madeRow g b) i = (weigh (rowWeights b.1 b.2 g.vertFac)
      ((List.range b.1).map fun u => byte (g.rows u) i)).toNat := by
    rw [madeRow_many h3 h6, byte, List.getD, List.getElem?_map,
      List.getElem?_eq_getElem (by simpa using hi)]
    simp
  obtain ⟨⟨c, hc, hlo⟩, d, hd, hhi⟩ := weigh_between
    ((List.range b.1).map fun u => byte (g.rows u) i) (by simpa using hlen) hsum (by
      intro c hc
      obtain ⟨u, -, rfl⟩ := List.mem_map.mp hc
      exact byte_le _ _)
  obtain ⟨u, hu, rfl⟩ := List.mem_map.mp hc
  obtain ⟨v, hv, rfl⟩ := List.mem_map.mp hd
  rw [hsaved] at hu hv
  rw [hbyte]
  exact ⟨⟨_, mem_savedRows (List.mem_range.mp hu), by lia⟩, _,
    mem_savedRows (List.mem_range.mp hv), hhi⟩

theorem blended_narrow (hsaved : 2 = g.nSavedRows) (h : Fractional b) (hw : g.outRowNbytes ≤ 1) :
    Blended g.outRowNbytes (savedRows g) (madeRow g b) := by
  intro i hi
  have hzero : i = 0 := by lia
  subst hzero
  rw [madeRow_fractional h, byte_replicate hi]
  have h0 := byte_le (g.rows 0) 0
  have h1 := byte_le (g.rows 1) 0
  obtain ⟨hlo, hhi⟩ := eighths_between (a := byte (g.rows 0) 0) (b := byte (g.rows 1) 0) h.2.1
    h.2.2
  have hval : ∀ x, x ≤ 255 → (x.toUInt8).toNat = x := by
    intro x hx
    rw [Nat.toUInt8, UInt8.toNat_ofNat']
    lia
  rw [hval _ (by lia)]
  have hm0 := mem_savedRows (g := g) (u := 0) (by lia)
  have hm1 := mem_savedRows (g := g) (u := 1) (by lia)
  constructor
  · rcases hlo with h | h
    · exact ⟨_, hm0, h⟩
    · exact ⟨_, hm1, h⟩
  · rcases hhi with h | h
    · exact ⟨_, hm0, h⟩
    · exact ⟨_, hm1, h⟩

/-! ## Images -/

def doubled : List Row → List Row
  | [] => []
  | r :: rs => r :: r :: rs

theorem doubled_concat (rs : List Row) (p : Row) :
    doubled (rs ++ [p]) = if rs = [] then [p, p] else doubled rs ++ [p] := by
  cases rs with
  | nil => rfl
  | cons r rs => rfl

/-- For every input row, the rows that are blended and the rows that come out. -/
def imageRows (horizScale : Row → Row) (g : ScInst) : List Row → Option (List (List Row × List Row))
  | [] => some []
  | src :: rest => do
    let filled ← saveInput horizScale g src
    let (rs, g) ← contoneScaleRow horizScale g src
    let more ← imageRows horizScale g rest
    return (savedRows filled, rs) :: more

def Saved (g : ScInst) (seen : List Row) : Prop :=
  savedRows g <:+ doubled seen ∧ (seen = [] ↔ g.nSavedRows = 0)

theorem savedRows_filledInst (horizScale : Row → Row) {f : Nat} {s : Positions}
    (hg : Agrees false f s g) {seen : List Row} (h : Saved g seen) (src : Row) :
    savedRows (filledInst horizScale g s src) <:+ doubled (seen ++ [horizScale src]) := by
  obtain ⟨hsuffix, hempty⟩ := h
  have hsaved := hg.saved
  rw [doubled_concat]
  by_cases h0 : g.nSavedRows = 0
  · have hfill : s.filled = 2 := by
      rw [Positions.filled, if_pos (hsaved ▸ h0), ← hsaved, h0]
    rw [if_pos (hempty.mpr h0)]
    simp [savedRows, filledInst, filledRows, h0, hfill, List.range_succ]
  · have hfill : s.filled = g.nSavedRows + 1 := by
      rw [Positions.filled, if_neg (hsaved ▸ h0), ← hsaved]
    rw [if_neg fun h => h0 (hempty.mp h)]
    have hrows : savedRows (filledInst horizScale g s src) = savedRows g ++ [horizScale src] := by
      simp only [savedRows, filledInst, filledRows, if_neg h0, hfill, List.range_succ,
        List.map_append, List.map_singleton, Function.update_self]
      congr 1
      refine List.map_congr_left fun u hu => ?_
      exact Function.update_of_ne (Nat.ne_of_lt (List.mem_range.mp hu)) _ _
    rw [hrows]
    exact List.suffix_append_self_iff.mpr hsuffix

theorem filled_ne_zero (s : Positions) : s.filled ≠ 0 := by
  have := s.two_le_filled
  omega

theorem saved_after {horizScale : Row → Row} {s s' : Positions} {src : Row}
    {kept : Nat → Row} {seen : List Row}
    (hkept : s'.saved = 1 ∧ kept 0 = filledRows horizScale g src (s.filled - 1)
      ∨ s'.saved = s.filled ∧ kept = filledRows horizScale g src)
    (h : savedRows (filledInst horizScale g s src) <:+ doubled (seen ++ [horizScale src])) :
    Saved (g.at s' kept) (seen ++ [horizScale src]) := by
  have hfill := s.two_le_filled
  refine ⟨?_, iff_of_false (by simp) ?_⟩
  · refine List.IsSuffix.trans ?_ h
    rcases hkept with ⟨hone, hlast⟩ | ⟨hall, rfl⟩
    · refine ⟨(List.range (s.filled - 1)).map (filledRows horizScale g src), ?_⟩
      rw [savedRows, savedRows, show (g.at s' kept).nSavedRows = 1 from hone,
        show (filledInst horizScale g s src).nSavedRows = s.filled - 1 + 1 by
          rw [Nat.sub_add_cancel (by omega)]; rfl,
        List.range_succ, List.range_succ, List.map_append]
      simp [ScInst.at, filledInst, hlast]
    · rw [savedRows, show (g.at s' (filledRows horizScale g src)).nSavedRows = s.filled from hall]
      exact List.suffix_rfl
  · rcases hkept with ⟨hone, -⟩ | ⟨hall, -⟩
    · rw [show (g.at s' kept).nSavedRows = 1 from hone]
      exact Nat.one_ne_zero
    · rw [show (g.at s' kept).nSavedRows = s.filled from hall]
      exact filled_ne_zero s

/-- **Run lemma.** Every input row is blended with the newest rows before it. -/
theorem imageRows_returns (horizScale : Row → Row) {f : Nat} (hf : 0x4000 ≤ f) (img : List Row)
    {n : Nat} {g : ScInst} {seen : List Row} (hg : Agrees false f (positions false f n) g)
    (hs : Saved g seen) :
    Returns (imageRows horizScale g img) fun obs =>
      obs.length = img.length ∧ ∀ k, k < img.length → ∃ filled : ScInst,
        obs[k]? = some (savedRows filled,
            (advance false f (positions false f (n + k))).1.map (madeRow filled))
          ∧ savedRows filled <:+ doubled (seen ++ (img.take (k + 1)).map horizScale)
          ∧ filled.nSavedRows = (positions false f (n + k)).filled
          ∧ filled.vertFac = f ∧ filled.outRowNbytes = g.outRowNbytes := by
  induction img generalizing n g seen with
  | nil =>
    refine ⟨[], rfl, rfl, ?_⟩
    intro k hk
    cases hk
  | cons src rest ih =>
    have hsound := sound_positions false f n
    obtain ⟨kept, hrow, hkept⟩ := contoneScaleRow_slow horizScale rfl hf hg hsound src
    have hsuffix := savedRows_filledInst horizScale hg hs src
    have hsaved := saved_after hkept hsuffix
    rw [imageRows, saveInput_eq rfl hf hg hsound, hrow, Option.bind_eq_bind, Option.bind_some,
      Option.bind_eq_bind, Option.bind_some]
    have hnext := hg.at (advance false f (positions false f n)).2 kept
    refine Returns.bind (ih (n := n + 1) hnext hsaved) fun more hmore => ?_
    refine ⟨_, rfl, by simp [hmore.1], ?_⟩
    intro k hk
    cases k with
    | zero =>
      refine ⟨filledInst horizScale g (positions false f n) src, ?_, ?_, rfl, hg.fac, rfl⟩
      · simp
      · simpa using hsuffix
    | succ k =>
      obtain ⟨filled, hget, hsuf, hcount, hfac, hwidth⟩ := hmore.2 k (by simpa using hk)
      refine ⟨filled, ?_, ?_, ?_, hfac, hwidth⟩
      · rw [List.getElem?_cons_succ, hget, show n + (k + 1) = n + 1 + k by lia]
      · simpa using hsuf
      · rw [hcount, show n + (k + 1) = n + 1 + k by lia]

/-- The blends of the first `n` rows are none of the seven cases, or rows have one byte. -/
def BlendsWell (f w n : Nat) : Prop :=
  w ≤ 1 ∨ ∀ k, k < n → ∀ b ∈ (advance false f (positions false f k)).1, ¬ Fractional b

/-- What is asked of an image: for every input row, the rows that come out are blended of
the newest input rows, byte by byte. -/
def RowsBlended (horizScale : Row → Row) (f w : Nat) (img : List Row) : Prop :=
  Returns (scaleOpen false f 1 w >>= fun g => imageRows horizScale g img) fun obs =>
    obs.length = img.length
      ∧ ∀ k o, obs[k]? = some o → o.1 <:+ doubled ((img.take (k + 1)).map horizScale)
        ∧ ∀ out ∈ o.2, Blended w o.1 out

theorem image_returns (horizScale : Row → Row) {f : Nat} (w : Nat) (hlow : 0x4000 ≤ f)
    (hhigh : f ≤ 0x60000) (img : List Row) :
    Returns (scaleOpen false f 1 w >>= fun g => imageRows horizScale g img) fun obs =>
      obs.length = img.length ∧ ∀ k, k < img.length → ∃ filled : ScInst,
        obs[k]? = some (savedRows filled,
            (advance false f (positions false f k)).1.map (madeRow filled))
          ∧ savedRows filled <:+ doubled ((img.take (k + 1)).map horizScale)
          ∧ filled.nSavedRows = (positions false f k).filled
          ∧ filled.vertFac = f ∧ filled.outRowNbytes = w := by
  have hheld : (f + 0xffff) / 0x10000 ≤ heldArraySize := by
    unfold heldArraySize
    lia
  obtain ⟨g, hopen, hreached, hwidth⟩ : ∃ g, scaleOpen false f 1 w = some g
      ∧ Reached false f 0 g ∧ g.outRowNbytes = w := by
    obtain ⟨g, hg, hr, -⟩ := @scaleOpen_returns false f hlow hhigh 1 w (by decide)
    refine ⟨g, hg, hr, ?_⟩
    rw [scaleOpen, check_pos (.inr ⟨hlow, hhigh⟩)] at hg
    simp only [Option.bind_eq_bind, Option.bind_some, check_pos hheld, Option.pure_def,
      Option.some.injEq] at hg
    rw [← hg]
  have hzero : g.nSavedRows = 0 := hreached.agrees.saved
  have hsaved : Saved g [] := by
    refine ⟨?_, iff_of_true rfl hzero⟩
    rw [savedRows, hzero]
    exact List.nil_suffix
  rw [hopen]
  have hrun := imageRows_returns horizScale hlow img hreached.agrees hsaved
  rw [Option.bind_eq_bind, Option.bind_some]
  simpa only [Nat.zero_add, List.nil_append, hwidth] using hrun

theorem madeRow_blended {f k : Nat} (hlow : 0x4000 ≤ f)
    (hsaved : g.nSavedRows = (positions false f k).filled) (hfac : g.vertFac = f)
    (hb : b ∈ (advance false f (positions false f k)).1)
    (hwell : g.outRowNbytes ≤ 1 ∨ ¬ Fractional b) :
    Blended g.outRowNbytes (savedRows g) (madeRow g b) := by
  have hsound := sound_positions false f k
  obtain ⟨hn, h6, hw⟩ := mem_advance rfl hlow hsound hb
  have htwo := (positions false f k).two_le_filled
  by_cases h2 : b.1 = 2
  · by_cases hfrac : Fractional b
    · exact blended_narrow (by rw [hsaved, ← hn, h2]) hfrac (hwell.resolve_right (not_not.mpr hfrac))
    · obtain ⟨u, hu, hrow⟩ := madeRow_whole (g := g) h2 hw hfrac
      rw [hrow]
      exact blended_take (by rw [hsaved, ← hn, h2]; exact hu)
  · by_cases hup : 0x10000 ≤ f
    · rw [advance_up rfl hup] at hb
      obtain ⟨u, -, rfl⟩ := List.mem_map.mp hb
      exact absurd rfl h2
    · have hdown := (hsound.down rfl hup).2
      have hpos : b.2 = (positions false f k).pos := by
        by_cases hout : (positions false f k).span f < 0x10000
        · rw [advance_none rfl hup hout] at hb
          cases hb
        · rw [advance_one rfl hup hout] at hb
          rw [List.mem_singleton.mp hb]
      exact blended_many (hn.trans hsaved.symm) (by lia) h6 (by rw [hfac, hn, hpos]; exact hdown)

def edge (w : Nat) : Row := 0 :: List.replicate (w - 1) 255

theorem edge_bytes {w : Nat} (hw : 1 < w) : byte (edge w) 0 = 0 ∧ byte (edge w) 1 = 255 := by
  obtain ⟨w, rfl⟩ : ∃ v, w = v + 2 := ⟨w - 2, by lia⟩
  simp [edge, byte, List.replicate_succ]

/-- Every image of `n` rows of `w` bytes comes out blended exactly when none of its rows is
blended of two by one to seven eighths, or its rows have one byte. -/
theorem blended_iff (f w n : Nat) (hlow : 0x4000 ≤ f) (hhigh : f ≤ 0x60000) :
    (∀ (horizScale : Row → Row) (img : List Row), img.length = n →
        (∀ src ∈ img, (horizScale src).length = w) → RowsBlended horizScale f w img)
      ↔ BlendsWell f w n := by
  constructor
  · intro hall
    by_contra hcon
    rw [BlendsWell, not_or] at hcon
    obtain ⟨hw, hbad⟩ := hcon
    push Not at hbad
    obtain ⟨k, hk, b, hb, hfrac⟩ := hbad
    have hrun := image_returns id w hlow hhigh (List.replicate n (edge w))
    obtain ⟨obs, hobs, hlen, hrows⟩ := hall id (List.replicate n (edge w)) List.length_replicate (by
      intro src hsrc
      rw [List.eq_of_mem_replicate hsrc]
      simp [edge]
      lia)
    obtain ⟨-, hsteps⟩ := hrun.of_eq_some hobs
    obtain ⟨filled, hget, hsuffix, hsaved, hfac, hwidth⟩ := hsteps k
      (by rwa [List.length_replicate])
    have hedge : ∀ r ∈ savedRows filled, r = edge w := by
      intro r hr
      have hmem := hsuffix.subset hr
      rw [List.map_id, List.take_replicate] at hmem
      cases hm : min (k + 1) n with
      | zero =>
        rw [hm] at hmem
        cases hmem
      | succ m =>
        rw [hm, List.replicate_succ, doubled] at hmem
        rcases List.mem_cons.mp hmem with h | h
        · exact h
        · rw [← List.replicate_succ] at h
          exact List.eq_of_mem_replicate h
    have htwo := (positions false f k).two_le_filled
    have hfirst := hedge _ (mem_savedRows (g := filled) (u := 0) (by lia))
    have hsecond := hedge _ (mem_savedRows (g := filled) (u := 1) (by lia))
    obtain ⟨h0, h1⟩ := edge_bytes (Nat.lt_of_not_le hw)
    have hblend := (hrows k _ hget).2 _ (List.mem_map.mpr ⟨b, hb, rfl⟩)
    obtain ⟨⟨r, hr, hle⟩, -⟩ := hblend 1 (Nat.lt_of_not_le hw)
    rw [hedge r hr, h1, madeRow_fractional hfrac, hwidth, byte_replicate (Nat.lt_of_not_le hw),
      hfirst, hsecond, h0] at hle
    have hzero : ∀ j, eighths j 0 0 = 0 := by
      intro j
      unfold eighths
      split <;> rfl
    rw [hzero] at hle
    exact absurd hle (by decide)
  · intro hwell horizScale img himg _
    refine (image_returns _ _ hlow hhigh img).mono fun obs hobs => ⟨hobs.1, ?_⟩
    intro k o hk
    have hlt : k < img.length := by
      rw [← hobs.1]
      exact (List.getElem?_eq_some_iff.mp hk).1
    obtain ⟨filled, hget, hsuffix, hsaved, hfac, hwidth⟩ := hobs.2 k hlt
    rw [hget, Option.some.injEq] at hk
    subst hk
    refine ⟨hsuffix, ?_⟩
    intro out hout
    obtain ⟨b, hb, rfl⟩ := List.mem_map.mp hout
    rw [← hwidth]
    refine madeRow_blended hlow hsaved hfac hb ?_
    rw [hwidth]
    exact hwell.imp_right fun h => h k (himg ▸ hlt) b hb

/-- Four rows of two bytes made three eighths as high. -/
theorem blended_three_eighths : RowsBlended id 0x6000 2 [[1, 200], [3, 100], [250, 6], [7, 8]] :=
  (blended_iff 0x6000 2 4 (by decide) (by decide)).mpr
    (.inr (by decide : ∀ k, k < 4 → ∀ b ∈ (advance false 0x6000 (positions false 0x6000 k)).1,
      ¬ Fractional b)) id _ rfl (by decide)

/-- One row made one and a half times as high: its second byte takes the value of the
first. -/
theorem not_blended_enlarged : ¬ RowsBlended id 0x18000 2 [[0, 255]] := by
  rintro ⟨obs, hobs, -, hrows⟩
  have hvalue : (scaleOpen false 0x18000 1 2 >>= fun g => imageRows id g [[0, 255]])
      = some [([[0, 255], [0, 255]], [[0, 0]])] := by decide
  rw [hvalue, Option.some.injEq] at hobs
  subst hobs
  obtain ⟨⟨r, hr, hle⟩, -⟩ := (hrows 0 _ rfl).2 [0, 0] (List.mem_singleton_self _) 1 (by decide)
  have hr' : r = [0, 255] := by simpa using hr
  rw [hr'] at hle
  exact absurd hle (by decide)

end Hplip.Ip.Scale
