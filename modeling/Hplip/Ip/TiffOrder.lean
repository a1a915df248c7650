import Hplip.Ip.TiffFile

/-!
# The two byte orders of a TIFF file

The same directory and the same samples in either byte order should be decoded to the same
image. The directory is. The rows are, except those of samples of 16 bits: `tifDecode_convert`
copies a row to the output and swaps its words in the input then, where nothing reads them again.
-/

namespace Hplip.Ip.Tiff

open Faults LittleEndian

variable {g gM gI : TifInst} {o : ByteOrder} {bits : Int} {buf bufM bufI : List UInt8}
  {row : List Nat} {n k : Nat}

/-! ## Samples -/

/-- A sample of 16 bits is a word of the byte order; what is smaller is packed into bytes. -/
def sampleBytes (o : ByteOrder) (bits : Int) (v : Nat) : List UInt8 :=
  if bits = 16 then
    match o with
    | .little => [UInt8.ofNat v, UInt8.ofNat (v / 256)]
    | .big => [UInt8.ofNat (v / 256), UInt8.ofNat v]
  else [UInt8.ofNat v]

def rowData (o : ByteOrder) (bits : Int) (row : List Nat) : List UInt8 :=
  row.flatMap (sampleBytes o bits)

def chunkData (o : ByteOrder) (bits : Int) (chunks : List (List (List Nat))) : List (List UInt8) :=
  chunks.map fun rows => rows.flatMap (rowData o bits)

/-- Two instances decode the same samples to the same rows, whenever the rows come. -/
def SameRows (gM gI : TifInst) : Prop :=
  ∀ chunks : List (List (List Nat)),
    (∀ rows ∈ chunks, ∀ row ∈ rows,
      (rowData .big gM.iBitsPerSample row).length = gM.dwRawRowBytes) →
    decodeRows gM [] (chunkData .big gM.iBitsPerSample chunks)
      = decodeRows gI [] (chunkData .little gI.iBitsPerSample chunks)

/-- Both headers are refused, or both files are decoded to the same image. -/
def SameImage : Except (Stop Unit) (Unit × Parsing) → Except (Stop Unit) (Unit × Parsing) → Prop
  | .ok (_, sM), .ok (_, sI) => sM.g.traits = sI.g.traits ∧
      sM.g.dwInNextPos = sI.g.dwInNextPos ∧ SameRows sM.g sI.g
  | .error eM, .error eI => eM = eI
  | _, _ => False

/-- An `MM` file and an `II` file are decoded to the same image. -/
def SameDecoding (g : TifInst) (bufM bufI : List UInt8) : Prop :=
  SameImage (getActualTraits ⟨g, bufM, 0⟩) (getActualTraits ⟨g, bufI, 0⟩)

/-- The tags say that there are samples of 16 bits in a row. -/
def Directory.WordSamples (d : Directory) (length : Nat) (a : Kept) : Prop :=
  ∃ a', d.interpret length a = .ok a' ∧ a'.iBitsPerSample = 16 ∧
    ∃ m, rawRowBytes a'.traits.iBitsPerPixel a'.traits.iPixelsPerRow = 2 * (m + 1)

/-! ## Samples of less than 16 bits -/

def TifInst.withOrder (g : TifInst) (o : ByteOrder) : TifInst :=
  { g with bByteSwap := decide (o = .big) }

def Converted.withOrder (c : Converted) (o : ByteOrder) : Converted :=
  { c with g := c.g.withOrder o }

theorem rowData_small {o' : ByteOrder} (hbits : bits ≠ 16) :
    rowData o bits row = rowData o' bits row := by
  have hsample : sampleBytes o bits = sampleBytes o' bits := by
    funext v
    unfold sampleBytes
    rw [if_neg hbits, if_neg hbits]
  rw [rowData, rowData, hsample]

theorem chunkData_small {o' : ByteOrder} (hbits : bits ≠ 16) (chunks : List (List (List Nat))) :
    chunkData o bits chunks = chunkData o' bits chunks := by
  have hrow : rowData o bits = rowData o' bits := funext fun _ => rowData_small hbits
  rw [chunkData, chunkData, hrow]

theorem convert_withOrder (hsmall : g.iBitsPerSample ≠ 16 ∨ buf = []) :
    convert (g.withOrder o) (some buf) n
      = (convert g (some buf) n).map fun c => c.withOrder o := by
  have hraw : (g.withOrder o).dwRawRowBytes = g.dwRawRowBytes := rfl
  unfold convert
  by_cases hvalid : g.dwValidChk ≠ checkValue
  · have hvalid' : (g.withOrder o).dwValidChk ≠ checkValue := hvalid
    rw [if_pos hvalid, if_pos hvalid']
    rfl
  have hvalid' : ¬ (g.withOrder o).dwValidChk ≠ checkValue := hvalid
  rw [if_neg hvalid, if_neg hvalid']
  dsimp only
  rw [hraw]
  by_cases hpartial : buf.length < g.dwRawRowBytes
  · rw [if_pos hpartial, if_pos hpartial]
    rfl
  rw [if_neg hpartial, if_neg hpartial]
  by_cases hroom : n < g.dwRawRowBytes
  · rw [if_pos hroom, if_pos hroom]
    rfl
  rw [if_neg hroom, if_neg hroom]
  rcases hsmall with hbits | rfl
  · have hswap : ¬ (g.bByteSwap ∧ g.iBitsPerSample = 16) := fun h => hbits h.2
    have hswap' : ¬ ((g.withOrder o).bByteSwap ∧ (g.withOrder o).iBitsPerSample = 16) :=
      fun h => hbits h.2
    rw [if_neg hswap, if_neg hswap']
    rfl
  · have hzero : g.dwRawRowBytes = 0 := Nat.eq_zero_of_not_pos hpartial
    have hwords : swapWords 0 0 0 [] = .ok [] := rfl
    rw [hzero, hwords]
    split <;> split <;> rfl

theorem convert_spec {c : Converted} (h : convert g (some buf) n = .ok c) :
    c.g.iBitsPerSample = g.iBitsPerSample ∧
      (g.dwRawRowBytes ≤ buf.length → c.outBytes = buf.take g.dwRawRowBytes) ∧
      (buf = [] → c.inBuf = []) := by
  unfold convert at h
  split at h
  · cases h
  dsimp only at h
  by_cases hpartial : buf.length < g.dwRawRowBytes
  · rw [if_pos hpartial] at h
    cases h
    exact ⟨rfl, fun hrow => absurd hpartial (Nat.not_lt.mpr hrow), fun hempty => hempty⟩
  rw [if_neg hpartial] at h
  split at h
  · cases h
  by_cases hswap : g.bByteSwap = true ∧ g.iBitsPerSample = 16
  · rw [if_pos hswap] at h
    rcases hwords : swapWords g.dwRawRowBytes g.dwRawRowBytes 0 buf with e | buf'
    · rw [hwords] at h
      cases h
    · rw [hwords] at h
      cases h
      refine ⟨rfl, fun _ => rfl, ?_⟩
      rintro rfl
      have hzero : g.dwRawRowBytes = 0 := Nat.eq_zero_of_not_pos hpartial
      rw [hzero] at hwords
      exact (Except.ok.inj hwords).symm
  · rw [if_neg hswap] at h
    cases h
    exact ⟨rfl, fun _ => rfl, fun hempty => hempty⟩

theorem decodeRows_small (hbits : g.iBitsPerSample ≠ 16) (left : List UInt8)
    (more : List (List UInt8)) : decodeRows (g.withOrder o) left more = decodeRows g left more := by
  induction more generalizing g left with
  | nil => rfl
  | cons come more ih =>
    have hraw : (g.withOrder o).dwRawRowBytes = g.dwRawRowBytes := rfl
    rw [decodeRows, decodeRows, hraw, convert_withOrder (.inl hbits)]
    rcases hc : convert g (some (left ++ come)) g.dwRawRowBytes with e | c
    · rfl
    · have hkeep : c.g.iBitsPerSample ≠ 16 := by rwa [(convert_spec hc).1]
      show (decodeRows (c.g.withOrder o) (c.inBuf.drop c.inUsed) more >>= fun rows =>
        .ok (c.outBytes :: rows)) = _
      rw [ih hkeep]
      rfl

/-! ## Samples of 16 bits -/

theorem rowData_length (row : List Nat) : (rowData o 16 row).length = 2 * row.length := by
  rw [rowData]
  induction row with
  | nil => rfl
  | cons v row ih =>
    have hsample : (sampleBytes o 16 v).length = 2 := by cases o <;> rfl
    rw [List.flatMap_cons, List.length_append, ih, hsample, List.length_cons]
    lia

theorem decodeRows_one {rows : List (List UInt8)} (hbuf : buf.length = g.dwRawRowBytes)
    (h : decodeRows g [] [buf] = .ok rows) : rows = [buf] := by
  rw [decodeRows, List.nil_append] at h
  rcases hc : convert g (some buf) g.dwRawRowBytes with e | c
  · rw [hc] at h
    cases h
  · rw [hc] at h
    cases h
    rw [(convert_spec hc).2.1 (Nat.le_of_eq hbuf.symm), List.take_of_length_le (Nat.le_of_eq hbuf)]

theorem decodeRows_little (hvalid : g.dwValidChk = checkValue) (hswap : g.bByteSwap = false)
    (hbuf : buf.length = g.dwRawRowBytes) : ∃ rows, decodeRows g [] [buf] = .ok rows := by
  have hswap' : ¬ (g.bByteSwap = true ∧ g.iBitsPerSample = 16) :=
    fun h => Bool.false_ne_true (hswap.symm.trans h.1)
  have hvalid' : ¬ g.dwValidChk ≠ checkValue := fun h => h hvalid
  rw [decodeRows, List.nil_append]
  unfold convert
  rw [if_neg hvalid']
  dsimp only
  rw [if_neg (by omega), if_neg (Nat.lt_irrefl _), if_neg hswap']
  exact ⟨_, rfl⟩

theorem not_sameRows {m : Nat} (hvalid : gI.dwValidChk = checkValue)
    (hswap : gI.bByteSwap = false) (hbitsM : gM.iBitsPerSample = 16)
    (hbitsI : gI.iBitsPerSample = 16) (hrawM : gM.dwRawRowBytes = 2 * (m + 1))
    (hrawI : gI.dwRawRowBytes = 2 * (m + 1)) : ¬ SameRows gM gI := by
  intro hsame
  have hlength : ∀ o, (rowData o 16 (List.replicate (m + 1) 1)).length = 2 * (m + 1) := by
    intro o
    rw [rowData_length, List.length_replicate]
  have hchunks : ∀ o, chunkData o 16 [[List.replicate (m + 1) 1]]
      = [rowData o 16 (List.replicate (m + 1) 1)] := by
    intro o
    show [rowData o 16 _ ++ []] = _
    rw [List.append_nil]
  have hone := hsame [[List.replicate (m + 1) 1]] (by
    intro rows hrows row hrow
    rw [List.mem_singleton.mp hrows] at hrow
    rw [List.mem_singleton.mp hrow, hbitsM, hrawM]
    exact hlength .big)
  rw [hbitsM, hbitsI, hchunks, hchunks] at hone
  obtain ⟨rows, hrows⟩ := decodeRows_little hvalid hswap ((hlength .little).trans hrawI.symm)
  have hlittle := decodeRows_one ((hlength .little).trans hrawI.symm) hrows
  have hbig := decodeRows_one ((hlength .big).trans hrawM.symm) (hone.trans hrows)
  have hrow := List.singleton_inj.mp (hbig.symm.trans hlittle)
  exact absurd (List.cons.inj hrow).1 (by decide)

theorem decodeRows_empty {more : List (List UInt8)} (hmore : ∀ come ∈ more, come = []) :
    decodeRows (g.withOrder o) [] more = decodeRows g [] more := by
  induction more generalizing g with
  | nil => rfl
  | cons come more ih =>
    have hcome : come = [] := hmore come List.mem_cons_self
    subst hcome
    have hraw : (g.withOrder o).dwRawRowBytes = g.dwRawRowBytes := rfl
    rw [decodeRows, decodeRows, hraw, List.append_nil, convert_withOrder (.inr rfl)]
    rcases hc : convert g (some []) g.dwRawRowBytes with e | c
    · rfl
    · have hleft : c.inBuf.drop c.inUsed = [] := by
        rw [(convert_spec hc).2.2 rfl, List.drop_nil]
      show (decodeRows (c.g.withOrder o) (c.inBuf.drop c.inUsed) more >>= fun rows =>
          .ok (c.outBytes :: rows))
        = (decodeRows c.g (c.inBuf.drop c.inUsed) more >>= fun rows => .ok (c.outBytes :: rows))
      rw [hleft, ih fun come hcome => hmore come (List.mem_cons_of_mem _ hcome)]

/-- **The rows** are the same, unless there are words to swap in them. -/
theorem sameRows_iff (hvalid : g.dwValidChk = checkValue) :
    SameRows (g.withOrder .big) (g.withOrder .little) ↔
      ¬ (g.iBitsPerSample = 16 ∧ ∃ m, g.dwRawRowBytes = 2 * (m + 1)) := by
  constructor
  · rintro hsame ⟨hbits, m, hraw⟩
    have hvalid' : (g.withOrder .little).dwValidChk = checkValue := hvalid
    have hnot : ¬ SameRows (g.withOrder .big) (g.withOrder .little) :=
      not_sameRows hvalid' rfl hbits hbits hraw hraw
    exact hnot hsame
  · intro hnot chunks hchunks
    by_cases hbits : g.iBitsPerSample = 16
    · have hrows : ∀ rows ∈ chunks, ∀ row ∈ rows, row = [] := by
        intro rows hrows row hrow
        have hlen := hchunks rows hrows row hrow
        rw [show (g.withOrder .big).iBitsPerSample = 16 from hbits, rowData_length] at hlen
        rcases row with _ | ⟨v, row⟩
        · rfl
        · exact absurd ⟨hbits, row.length, hlen.symm⟩ hnot
      have hempty : ∀ o, ∀ come ∈ chunkData o g.iBitsPerSample chunks, come = [] := by
        intro o come hcome
        obtain ⟨rows, hmem, rfl⟩ := List.mem_map.mp hcome
        refine List.flatMap_eq_nil_iff.mpr fun row hrow => ?_
        rw [hrows rows hmem row hrow]
        rfl
      have hdata : chunkData .big g.iBitsPerSample chunks
          = chunkData .little g.iBitsPerSample chunks := by
        refine List.map_congr_left fun rows hmem => ?_
        rw [hempty .big _ (List.mem_map_of_mem hmem), hempty .little _ (List.mem_map_of_mem hmem)]
      show decodeRows (g.withOrder .big) [] (chunkData .big g.iBitsPerSample chunks)
        = decodeRows (g.withOrder .little) [] (chunkData .little g.iBitsPerSample chunks)
      rw [hdata, decodeRows_empty (hempty .little), decodeRows_empty (hempty .little)]
    · show decodeRows (g.withOrder .big) [] (chunkData .big g.iBitsPerSample chunks)
        = decodeRows (g.withOrder .little) [] (chunkData .little g.iBitsPerSample chunks)
      rw [decodeRows_small hbits, decodeRows_small hbits, chunkData_small hbits]

/-! ## Both files -/

theorem run_cases {x : Except (Stop Unit) (Unit × Parsing)} {y : Except (Stop Unit) Kept}
    {f : Kept → TifInst} (h : x.map (fun p => p.2.g) = y.map f) :
    (∃ e, x = .error e ∧ y = .error e) ∨ ∃ s a, x = .ok ((), s) ∧ y = .ok a ∧ s.g = f a := by
  rcases x with e | ⟨⟨⟩, s⟩
  · rcases y with e' | a
    · exact .inl ⟨e, rfl, by rw [Except.error.inj h]⟩
    · cases h
  · rcases y with e' | a
    · cases h
    · exact .inr ⟨s, a, rfl, rfl, Except.ok.inj h⟩

/-- **Byte order**: the two files of a directory are decoded to the same image for all samples,
unless these are words that `tifDecode_convert` has to swap. -/
theorem sameDecoding_iff {d : Directory} (hM : Describes .big bufM d)
    (hI : Describes .little bufI d) (hsep : Separate d) (hvalid : g.dwValidChk = checkValue)
    (hsame : bufM.length = bufI.length) (hlen : bufI.length < 2 ^ 31) :
    SameDecoding g bufM bufI ↔
      ¬ d.WordSamples bufI.length ⟨g.traits, g.iBitsPerSample, 0⟩ := by
  have hrunM := getActualTraits_described (s := ⟨g, bufM, 0⟩) hM hsep hvalid
    (by show bufM.length < _; omega)
  have hrunI := getActualTraits_described (s := ⟨g, bufI, 0⟩) hI hsep hvalid hlen
  have hinterpret : d.interpret bufM.length ⟨g.traits, g.iBitsPerSample, 0⟩
      = d.interpret bufI.length ⟨g.traits, g.iBitsPerSample, 0⟩ := by rw [hsame]
  rw [SameDecoding, Directory.WordSamples]
  rcases run_cases hrunM with ⟨e, hM', hy⟩ | ⟨sM, a, hM', hy, hgM⟩
  · have hy' : d.interpret bufI.length ⟨g.traits, g.iBitsPerSample, 0⟩ = .error e :=
      hinterpret.symm.trans hy
    rcases run_cases hrunI with ⟨e', hI', hz⟩ | ⟨sI, a', hI', hz, hgI⟩
    · rw [hM', hI', hy']
      refine iff_of_true ?_ fun ⟨a', ha', _⟩ => nomatch ha'
      exact Except.error.inj (hy'.symm.trans hz)
    · exact absurd (hy'.symm.trans hz) fun h => nomatch h
  · have hy' : d.interpret bufI.length ⟨g.traits, g.iBitsPerSample, 0⟩ = .ok a :=
      hinterpret.symm.trans hy
    rcases run_cases hrunI with ⟨e', hI', hz⟩ | ⟨sI, a', hI', hz, hgI⟩
    · exact absurd (hy'.symm.trans hz) fun h => nomatch h
    · have haa : a = a' := Except.ok.inj (hy'.symm.trans hz)
      subst haa
      rw [hM', hI', hy']
      have hrows := sameRows_iff (g := g.parsed .little a) hvalid
      rw [show (g.parsed .little a).withOrder .big = sM.g from hgM.symm,
        show (g.parsed .little a).withOrder .little = sI.g from hgI.symm] at hrows
      constructor
      · rintro ⟨-, -, hsameRows⟩ ⟨a', ha', hwords⟩
        rw [← Except.ok.inj ha'] at hwords
        exact hrows.mp hsameRows hwords
      · intro hnot
        exact ⟨by rw [hgM, hgI]; rfl, by rw [hgM, hgI]; rfl,
          hrows.mpr fun hwords => hnot ⟨a, rfl, hwords⟩⟩

/-! ## A file of two bytes a row -/

/-- A tag with one `SHORT`. -/
def shortTag (id v : Nat) : TagDesc := ⟨id, tiffShort, 1, fun _ => v, 0⟩

def shortDirectory (tags : List (Nat × Nat)) : Directory :=
  ⟨8, tags.map fun tag => shortTag tag.1 tag.2⟩

theorem shortTag_touches {id v pTag q : Nat} (h : (shortTag id v).Touches pTag q) :
    pTag ≤ q ∧ q < pTag + 12 := by
  rcases h with h | ⟨k, hk, hlo, hhi⟩
  · exact h
  · have htwo : 2 = k := Option.some.inj hk
    subst htwo
    have hplace : (shortTag id v).place pTag 2 = pTag + 8 := rfl
    have hcount : (shortTag id v).count = 1 := rfl
    rw [hplace] at hlo hhi
    rw [hcount] at hhi
    lia

theorem shortTag_outlying {id v pTag : Nat} : (shortTag id v).Outlying pTag := by
  intro k hk hlong
  have htwo : 2 = k := Option.some.inj hk
  subst htwo
  exact absurd hlong (by show ¬ 4 < 1 * 2; omega)

theorem shortTag_at {id v pTag : Nat} (hentry : pTag + 12 ≤ buf.length)
    (hid : numberAt o buf pTag 2 = id) (hkind : numberAt o buf (pTag + 2) 2 = tiffShort)
    (hcount : numberAt o buf (pTag + 4) 4 = 1) (hv : numberAt o buf (pTag + 8) 2 = v) :
    TagAt o buf (shortTag id v) pTag := by
  have htwo : ∀ k, typeBytes (shortTag id v).kind = some k → k = 2 :=
    fun k hk => (Option.some.inj hk).symm
  refine ⟨hentry, hid, hkind, hcount, fun k hk hlong => ?_, fun k hk => Nat.one_pos, fun k hk => ?_,
    fun k hk j hj => ?_⟩
  · exact absurd hlong (by rw [htwo k hk]; show ¬ 4 < 1 * 2; lia)
  · rw [htwo k hk]
    show pTag + 8 + 1 * 2 ≤ buf.length
    lia
  · rw [htwo k hk] at hj ⊢
    have hzero : j = 0 := by
      have : j * 2 < 1 * 2 := hj
      lia
    subst hzero
    exact hv

theorem shortTags_apart (tags : List (Nat × Nat)) (pTag : Nat) :
    Apart pTag (tags.map fun tag => shortTag tag.1 tag.2) := by
  induction tags generalizing pTag with
  | nil => trivial
  | cons tag tags ih =>
    refine ⟨shortTag_outlying, fun i t ht q hq hq' => ?_, ih _⟩
    rw [List.getElem?_map] at ht
    obtain ⟨tag', -, rfl⟩ := Option.map_eq_some_iff.mp ht
    have hlo := shortTag_touches hq
    have hhi := shortTag_touches hq'
    lia

theorem shortDirectory_separate (tags : List (Nat × Nat)) : Separate (shortDirectory tags) := by
  refine ⟨Nat.le_refl 8, shortTags_apart tags _, fun i t ht q hq => ?_⟩
  rw [shortDirectory, List.getElem?_map] at ht
  obtain ⟨tag', -, rfl⟩ := Option.map_eq_some_iff.mp ht
  have hat := shortTag_touches hq
  have hoffset : (shortDirectory tags).offset = 8 := rfl
  rw [hoffset] at hat ⊢
  lia

def longBytes (o : ByteOrder) (v : Nat) : List UInt8 :=
  match o with
  | .little => sampleBytes o 16 v ++ sampleBytes o 16 (v / 2 ^ 16)
  | .big => sampleBytes o 16 (v / 2 ^ 16) ++ sampleBytes o 16 v

def shortFile (o : ByteOrder) (tags : List (Nat × Nat)) : List UInt8 :=
  List.replicate 2 (if o = .big then 0x4d else 0x49) ++ sampleBytes o 16 42 ++ longBytes o 8 ++
    sampleBytes o 16 tags.length ++ tags.flatMap fun tag =>
      sampleBytes o 16 tag.1 ++ sampleBytes o 16 tiffShort ++ longBytes o 1 ++
        sampleBytes o 16 tag.2 ++ [0, 0]

def oneSample (bits : Nat) : List (Nat × Nat) :=
  [(bitsPerSample, bits), (imageWidth, 1), (samplesPerPixel, 1)]

theorem oneSample_described (o : ByteOrder) {bits : Nat} (hbits : bits = 8 ∨ bits = 16) :
    Describes o (shortFile o (oneSample bits)) (shortDirectory (oneSample bits)) := by
  rcases hbits with rfl | rfl
  all_goals
    refine ⟨?_, ?_, ?_, ?_, fun i t ht => ?_⟩
    · cases o <;> exact ⟨rfl, by decide⟩
    · cases o <;> rfl
    · cases o <;> decide
    · cases o <;> rfl
    · match i, ht with
      | 0, ht => cases ht; apply shortTag_at <;> cases o <;> decide
      | 1, ht => cases ht; apply shortTag_at <;> cases o <;> decide
      | 2, ht => cases ht; apply shortTag_at <;> cases o <;> decide

theorem sameDecoding_iff_byte :
    SameDecoding (opened []).g (shortFile .big (oneSample 8)) (shortFile .little (oneSample 8)) ↔
      ¬ (shortDirectory (oneSample 8)).WordSamples (shortFile .little (oneSample 8)).length
        ⟨(opened []).g.traits, (opened []).g.iBitsPerSample, 0⟩ :=
  sameDecoding_iff (oneSample_described .big (.inl rfl)) (oneSample_described .little (.inl rfl))
    (shortDirectory_separate _) rfl rfl (by decide)

def header (g : TifInst) (buf : List UInt8) : Option (Nat × Bool × Int × Nat) :=
  match getActualTraits ⟨g, buf, 0⟩ with
  | .ok (_, s) => some (s.g.dwValidChk, s.g.bByteSwap, s.g.iBitsPerSample, s.g.dwRawRowBytes)
  | .error _ => none

theorem header_spec {valid raw : Nat} {swap : Bool}
    (h : header g buf = some (valid, swap, bits, raw)) :
    ∃ s, getActualTraits ⟨g, buf, 0⟩ = .ok ((), s) ∧ s.g.dwValidChk = valid ∧
      s.g.bByteSwap = swap ∧ s.g.iBitsPerSample = bits ∧ s.g.dwRawRowBytes = raw := by
  unfold header at h
  split at h
  · rename_i s hrun
    obtain ⟨hvalid, hswap, hbits, hraw⟩ : _ ∧ _ ∧ _ ∧ _ := by simpa using h
    exact ⟨s, hrun, hvalid, hswap, hbits, hraw⟩
  · cases h

/-- One sample of 16 bits: its bytes come out in the order of the file. -/
theorem word_sample_unswapped :
    Describes .big (shortFile .big (oneSample 16)) (shortDirectory (oneSample 16)) ∧
      Describes .little (shortFile .little (oneSample 16)) (shortDirectory (oneSample 16)) ∧
      Separate (shortDirectory (oneSample 16)) ∧
      ¬ SameDecoding (opened []).g (shortFile .big (oneSample 16))
        (shortFile .little (oneSample 16)) := by
  refine ⟨oneSample_described .big (.inr rfl), oneSample_described .little (.inr rfl),
    shortDirectory_separate _, fun hsame => ?_⟩
  have hbig : header (opened []).g (shortFile .big (oneSample 16))
      = some (checkValue, true, 16, 2) := by
    decide +kernel
  have hlittle : header (opened []).g (shortFile .little (oneSample 16))
      = some (checkValue, false, 16, 2) := by
    decide +kernel
  obtain ⟨sM, hM, -, -, hbitsM, hrawM⟩ := header_spec hbig
  obtain ⟨sI, hI, hvalid, hswap, hbitsI, hrawI⟩ := header_spec hlittle
  rw [SameDecoding, hM, hI] at hsame
  exact not_sameRows (m := 0) hvalid hswap hbitsM hbitsI hrawM hrawI hsame.2.2

end Hplip.Ip.Tiff
