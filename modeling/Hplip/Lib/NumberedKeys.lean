import Mathlib.Data.List.AList

/-!
# Values under one name, numbered

A dictionary has one value for a key. Several values of one name are kept under numbered keys: the
first of them under the plain key as long as it is alone, and all of them under numbers from the
second on.
-/

namespace NumberedKeys

universe u v

variable {K : Type u} {V : Type v} [DecidableEq K]

structure Name (K : Type u) where
  plain : K
  nth : Nat → K
  nth_inj : Function.Injective nth
  nth_ne : ∀ j, nth j ≠ plain

abbrev Dict (K : Type u) (V : Type v) [DecidableEq K] := AList fun _ : K => V

/-- The first number from `j` on whose key is free. -/
def probe (d : Dict K V) (nth : Nat → K) : Nat → Nat → Nat
  | 0, j => j
  | fuel + 1, j => if (d.lookup (nth j)).isNone then j else probe d nth fuel (j + 1)

def add (d : Dict K V) (n : Name K) (v : V) : Dict K V :=
  match d.lookup n.plain with
  | none =>
    match d.lookup (n.nth 0) with
    | none => d.insert n.plain v
    | some _ => d.insert (n.nth (probe d n.nth (d.keys.length + 1) 2)) v
  | some old => ((d.insert (n.nth 0) old).insert (n.nth 1) v).erase n.plain

def Name.key (n : Name K) (count i : Nat) : K := if count = 1 then n.plain else n.nth i

def Mine (n : Name K) (vs : List V) (k : K) (v : V) : Prop :=
  ∃ i, vs[i]? = some v ∧ k = n.key vs.length i

/-- The values of a name, and nothing else but what others have put there under other keys. -/
structure Holds (n : Name K) (vs : List V) (others : K → V → Prop) (d : Dict K V) : Prop where
  entries : ∀ k v, d.lookup k = some v ↔ Mine n vs k v ∨ others k v
  apart : ∀ k v v', Mine n vs k v → ¬ others k v'

def Free (others : K → V → Prop) (k : K) : Prop := ∀ v, ¬ others k v

/-- The keys that are free for a further value: those it needs, and those by which `add` tells how
many there are. -/
def Admits (n : Name K) (others : K → V → Prop) : Nat → Prop
  | 0 => Free others n.plain ∧ Free others (n.nth 0)
  | 1 => Free others (n.nth 0) ∧ Free others (n.nth 1)
  | count => Free others n.plain ∧ Free others (n.nth count)

/-! ## Probing -/

section Probe

variable {d : Dict K V} {n : Name K} {v : V}

theorem probe_cases (nth : Nat → K) (fuel j : Nat) :
    j ≤ probe d nth fuel j
      ∧ (∀ i, j ≤ i → i < probe d nth fuel j → d.lookup (nth i) ≠ none)
      ∧ (d.lookup (nth (probe d nth fuel j)) = none ∨ probe d nth fuel j = j + fuel) := by
  induction fuel generalizing j with
  | zero => exact ⟨Nat.le_refl j, fun i hle hlt => absurd hlt (Nat.not_lt.mpr hle), .inr rfl⟩
  | succ fuel ih =>
    by_cases hfree : (d.lookup (nth j)).isNone = true
    · have hstop : probe d nth (fuel + 1) j = j := by rw [probe, if_pos hfree]
      rw [hstop]
      exact ⟨Nat.le_refl j, fun i hle hlt => absurd hlt (Nat.not_lt.mpr hle),
        .inl (Option.isNone_iff_eq_none.mp hfree)⟩
    · have hgo : probe d nth (fuel + 1) j = probe d nth fuel (j + 1) := by rw [probe, if_neg hfree]
      obtain ⟨hle, hall, hend⟩ := ih (j + 1)
      rw [hgo]
      refine ⟨by lia, fun i hi hlt => ?_, ?_⟩
      · rcases Nat.eq_or_lt_of_le hi with rfl | hi
        · exact fun hnone => hfree (Option.isNone_iff_eq_none.mpr hnone)
        · exact hall i hi hlt
      · exact hend.imp_right fun h => h.trans (by lia)

/-- **The probe ends** with a key that is free, for there are more numbers than keys. -/
theorem probe_spec (n : Name K) (d : Dict K V) :
    ∃ j, probe d n.nth (d.keys.length + 1) 2 = j ∧ 2 ≤ j
    ∧ d.lookup (n.nth j) = none ∧ ∀ i, 2 ≤ i → i < j → d.lookup (n.nth i) ≠ none := by
  obtain ⟨hle, htaken, hend⟩ := probe_cases (d := d) n.nth (d.keys.length + 1) 2
  refine ⟨_, rfl, hle, ?_, htaken⟩
  rcases hend with hfree | hlast
  · exact hfree
  -- all keys that were tried are taken: too many
  have hnodup : ((List.range' 2 (d.keys.length + 1)).map n.nth).Nodup :=
    (List.nodup_range' 1).map n.nth_inj
  have hsub : (List.range' 2 (d.keys.length + 1)).map n.nth ⊆ d.keys := by
    intro k hk
    obtain ⟨i, hi, rfl⟩ := List.mem_map.mp hk
    rw [List.mem_range'_1] at hi
    have hne := htaken i hi.1 (by lia)
    rw [Ne, AList.lookup_eq_none, not_not] at hne
    exact AList.mem_keys.mp hne
  have hlen := (List.subperm_of_subset hnodup hsub).length_le
  rw [List.length_map, List.length_range'] at hlen
  exact absurd hlen (Nat.not_succ_le_self _)

/-- The values are numbered: the plain key is free, and the first number is not. -/
structure Numbered (d : Dict K V) (n : Name K) : Prop where
  plain : d.lookup n.plain = none
  first : d.lookup (n.nth 0) ≠ none

theorem Numbered.add_eq (h : Numbered d n) (v : V) :
    ∃ j, add d n v = d.insert (n.nth j) v ∧ 2 ≤ j ∧ d.lookup (n.nth j) = none
      ∧ ∀ i, 2 ≤ i → i < j → d.lookup (n.nth i) ≠ none := by
  obtain ⟨j, hj, hspec⟩ := probe_spec n d
  refine ⟨j, ?_, hspec⟩
  obtain ⟨w, hw⟩ := Option.ne_none_iff_exists'.mp h.first
  rw [add, h.plain, hw, hj]

theorem lookup_insert_ne_none {k k' : K} (h : d.lookup k ≠ none) :
    (d.insert k' v).lookup k ≠ none := by
  by_cases hk : k = k'
  · rw [hk, AList.lookup_insert]
    exact Option.some_ne_none v
  · rwa [AList.lookup_insert_ne hk]

theorem Numbered.add (h : Numbered d n) (v : V) : Numbered (add d n v) n := by
  obtain ⟨j, hadd, -, -, -⟩ := h.add_eq v
  rw [hadd]
  exact ⟨by rw [AList.lookup_insert_ne (n.nth_ne j).symm]; exact h.plain,
    lookup_insert_ne_none h.first⟩

theorem Numbered.adds (h : Numbered d n) (us : List V) :
    Numbered (us.foldl (fun d v => NumberedKeys.add d n v) d) n := by
  induction us generalizing d with
  | nil => exact h
  | cons u us ih => exact ih (h.add u)

theorem Numbered.lookup_adds (h : Numbered d n) (us : List V) {k : K} (hk : d.lookup k ≠ none) :
    (us.foldl (fun d v => NumberedKeys.add d n v) d).lookup k ≠ none := by
  induction us generalizing d with
  | nil => exact hk
  | cons u us ih =>
    obtain ⟨j, hadd, -, -, -⟩ := h.add_eq u
    refine ih (h.add u) ?_
    show (NumberedKeys.add d n u).lookup k ≠ none
    rw [hadd]
    exact lookup_insert_ne_none hk

theorem Numbered.piece (h : Numbered d n) (u : V) (us : List V) :
    ∃ j, 2 ≤ j ∧ d.lookup (n.nth j) = none
      ∧ ((u :: us).foldl (fun d v => NumberedKeys.add d n v) d).lookup (n.nth j) ≠ none := by
  obtain ⟨j, hadd, htwo, hj, -⟩ := h.add_eq u
  refine ⟨j, htwo, hj, (h.add u).lookup_adds us ?_⟩
  rw [hadd, AList.lookup_insert]
  exact Option.some_ne_none u

theorem numbered_of_plain (h : d.lookup n.plain ≠ none) (v : V) : Numbered (add d n v) n := by
  obtain ⟨w, hw⟩ := Option.ne_none_iff_exists'.mp h
  rw [add, hw]
  have hne : n.nth 0 ≠ n.nth 1 := fun h => absurd (n.nth_inj h) (by decide)
  exact ⟨AList.lookup_erase _ _, by
    rw [AList.lookup_erase_ne (n.nth_ne 0), AList.lookup_insert_ne hne, AList.lookup_insert]
    exact Option.some_ne_none w⟩

end Probe

/-! ## A further value -/

section Further

variable {d : Dict K V} {n : Name K} {vs : List V} {others : K → V → Prop} {k : K} {v u w : V}

omit [DecidableEq K] in
theorem mine_nil : ¬ Mine n [] k v := by
  rintro ⟨i, hi, -⟩
  cases hi

omit [DecidableEq K] in
theorem mine_one : Mine n [u] k v ↔ k = n.plain ∧ v = u := by
  constructor
  · rintro ⟨i, hi, rfl⟩
    cases i with
    | zero => exact ⟨rfl, (Option.some.inj hi).symm⟩
    | succ i => cases hi
  · rintro ⟨rfl, rfl⟩
    exact ⟨0, rfl, rfl⟩

omit [DecidableEq K] in
theorem mine_many (h : vs.length ≠ 1) : Mine n vs k v ↔ ∃ i, vs[i]? = some v ∧ k = n.nth i := by
  rw [Mine]
  simp only [Name.key, if_neg h]

theorem Holds.lookup_eq_none (h : Holds n vs others d) :
    d.lookup k = none ↔ (∀ v, ¬ Mine n vs k v) ∧ Free others k := by
  constructor
  · intro hnone
    have hno : ∀ v, ¬ (Mine n vs k v ∨ others k v) := by
      intro v hv
      rw [← h.entries, hnone] at hv
      cases hv
    exact ⟨fun v hv => hno v (.inl hv), fun v hv => hno v (.inr hv)⟩
  · rintro ⟨hmine, hfree⟩
    cases hk : d.lookup k with
    | none => rfl
    | some v =>
      rcases (h.entries k v).mp hk with hm | ho
      · exact absurd hm (hmine v)
      · exact absurd ho (hfree v)

theorem Holds.lookup_ne_none (h : Holds n vs others d) (hk : Mine n vs k v ∨ others k v) :
    d.lookup k ≠ none := by
  rw [(h.entries k v).mpr hk]
  exact Option.some_ne_none v

theorem Holds.numbered (h : Holds n vs others d) (hlen : 2 ≤ vs.length)
    (hfree : Free others n.plain) : Numbered d n := by
  constructor
  · refine h.lookup_eq_none.mpr ⟨fun v hv => ?_, hfree⟩
    obtain ⟨i, -, hi⟩ := (mine_many (by lia)).mp hv
    exact n.nth_ne i hi.symm
  · have hzero : vs[0]? = some (vs.get ⟨0, by lia⟩) := List.getElem?_eq_getElem (by lia)
    exact h.lookup_ne_none (.inl ((mine_many (by lia)).mpr ⟨0, hzero, rfl⟩))

omit [DecidableEq K] in
theorem getElem?_append_one {i : Nat} :
    (vs ++ [v])[i]? = some u ↔ vs[i]? = some u ∨ i = vs.length ∧ u = v := by
  rcases Nat.lt_trichotomy i vs.length with hlt | rfl | hgt
  · rw [List.getElem?_append_left hlt]
    exact (or_iff_left fun h => Nat.ne_of_lt hlt h.1).symm
  · rw [List.getElem?_concat_length, List.getElem?_eq_none (Nat.le_refl vs.length)]
    constructor
    · intro h
      exact .inr ⟨rfl, (Option.some.inj h).symm⟩
    · rintro (h | ⟨-, rfl⟩)
      · cases h
      · rfl
  · have hend : (vs ++ [v]).length ≤ i := by
      rw [List.length_append, List.length_singleton]
      exact hgt
    rw [List.getElem?_eq_none hend, List.getElem?_eq_none (Nat.le_of_lt hgt)]
    constructor
    · intro h
      cases h
    · rintro (h | ⟨h, -⟩)
      · cases h
      · exact absurd h (Nat.ne_of_gt hgt)

theorem Holds.add_first (h : Holds n [] others d) (ha : Admits n others 0) :
    Holds n [v] others (add d n v) := by
  obtain ⟨hplain, hzero⟩ := ha
  have hnone : d.lookup n.plain = none := h.lookup_eq_none.mpr ⟨fun _ => mine_nil, hplain⟩
  have hnone0 : d.lookup (n.nth 0) = none := h.lookup_eq_none.mpr ⟨fun _ => mine_nil, hzero⟩
  have hadd : add d n v = d.insert n.plain v := by rw [add, hnone, hnone0]
  rw [hadd]
  constructor
  · intro k u
    rw [mine_one]
    by_cases hk : k = n.plain
    · subst hk
      rw [AList.lookup_insert]
      exact ⟨fun heq => .inl ⟨rfl, (Option.some.inj heq).symm⟩,
        fun hor => hor.elim (fun heq => heq.2 ▸ rfl) fun ho => absurd ho (hplain u)⟩
    · rw [AList.lookup_insert_ne hk, h.entries]
      exact ⟨fun hor => .inr (hor.resolve_left mine_nil),
        fun hor => .inr (hor.resolve_left fun heq => hk heq.1)⟩
  · intro k u u' hm
    rw [(mine_one.mp hm).1]
    exact hplain u'

theorem Holds.add_second (h : Holds n [u] others d) (ha : Admits n others 1) :
    Holds n [u, v] others (add d n v) := by
  obtain ⟨hzero, hone⟩ := ha
  have hsome : d.lookup n.plain = some u := (h.entries _ _).mpr (.inl (mine_one.mpr ⟨rfl, rfl⟩))
  have hadd : add d n v = ((d.insert (n.nth 0) u).insert (n.nth 1) v).erase n.plain := by
    rw [add, hsome]
  have hmine : ∀ k x, Mine n [u, v] k x ↔ (k = n.nth 0 ∧ x = u) ∨ k = n.nth 1 ∧ x = v := by
    intro k x
    rw [mine_many (by simp)]
    constructor
    · rintro ⟨i, hi, rfl⟩
      match i with
      | 0 => exact .inl ⟨rfl, (Option.some.inj hi).symm⟩
      | 1 => exact .inr ⟨rfl, (Option.some.inj hi).symm⟩
      | i + 2 => cases hi
    · rintro (⟨rfl, rfl⟩ | ⟨rfl, rfl⟩)
      · exact ⟨0, rfl, rfl⟩
      · exact ⟨1, rfl, rfl⟩
  have hne : n.nth 0 ≠ n.nth 1 := fun h => absurd (n.nth_inj h) (by decide)
  rw [hadd]
  constructor
  · intro k x
    rw [hmine]
    by_cases hk : k = n.plain
    · subst hk
      rw [AList.lookup_erase]
      refine ⟨nofun, fun hor => ?_⟩
      rcases hor with (⟨heq, -⟩ | ⟨heq, -⟩) | ho
      · exact absurd heq.symm (n.nth_ne 0)
      · exact absurd heq.symm (n.nth_ne 1)
      · exact absurd ho (h.apart _ u x (mine_one.mpr ⟨rfl, rfl⟩))
    rw [AList.lookup_erase_ne hk]
    by_cases hk1 : k = n.nth 1
    · subst hk1
      rw [AList.lookup_insert]
      refine ⟨fun heq => .inl (.inr ⟨rfl, (Option.some.inj heq).symm⟩), fun hor => ?_⟩
      rcases hor with (⟨heq, -⟩ | ⟨-, rfl⟩) | ho
      · exact absurd heq.symm hne
      · rfl
      · exact absurd ho (hone x)
    rw [AList.lookup_insert_ne hk1]
    by_cases hk0 : k = n.nth 0
    · subst hk0
      rw [AList.lookup_insert]
      refine ⟨fun heq => .inl (.inl ⟨rfl, (Option.some.inj heq).symm⟩), fun hor => ?_⟩
      rcases hor with (⟨-, rfl⟩ | ⟨heq, -⟩) | ho
      · rfl
      · exact absurd heq hne
      · exact absurd ho (hzero x)
    rw [AList.lookup_insert_ne hk0, h.entries]
    exact ⟨fun hor => .inr (hor.resolve_left fun hm => hk (mine_one.mp hm).1),
      fun hor => .inr (hor.resolve_left fun hm => hm.elim (fun h => hk0 h.1) fun h => hk1 h.1)⟩
  · intro k x x' hm
    rcases (hmine k x).mp hm with ⟨rfl, -⟩ | ⟨rfl, -⟩
    · exact hzero x'
    · exact hone x'

theorem Holds.add_more (h : Holds n vs others d) (hlen : 2 ≤ vs.length)
    (hplain : Free others n.plain) (hfree : Free others (n.nth vs.length)) :
    Holds n (vs ++ [v]) others (add d n v) := by
  obtain ⟨j, hadd, htwo, hj, htaken⟩ := (h.numbered hlen hplain).add_eq v
  have hlast : d.lookup (n.nth vs.length) = none := by
    refine h.lookup_eq_none.mpr ⟨fun x hm => ?_, hfree⟩
    obtain ⟨i, hi, heq⟩ := (mine_many (by lia)).mp hm
    rw [← n.nth_inj heq, List.getElem?_eq_none (Nat.le_refl _)] at hi
    cases hi
  -- a smaller number is taken, and the probe does not pass a free one
  have hj' : j = vs.length := by
    rcases Nat.lt_trichotomy j vs.length with hlt | heq | hgt
    · exact absurd hj (h.lookup_ne_none
        (.inl ((mine_many (by lia)).mpr ⟨j, List.getElem?_eq_getElem hlt, rfl⟩)))
    · exact heq
    · exact absurd hlast (htaken _ hlen hgt)
  have hmine : ∀ k x, Mine n (vs ++ [v]) k x ↔ Mine n vs k x ∨ k = n.nth vs.length ∧ x = v := by
    intro k x
    have hmany : vs.length ≠ 1 := by lia
    have hmany' : (vs ++ [v]).length ≠ 1 := by
      rw [List.length_append, List.length_singleton]
      lia
    rw [mine_many hmany', mine_many hmany]
    simp only [getElem?_append_one]
    constructor
    · rintro ⟨i, hi | ⟨rfl, rfl⟩, rfl⟩
      · exact .inl ⟨i, hi, rfl⟩
      · exact .inr ⟨rfl, rfl⟩
    · rintro (⟨i, hi, rfl⟩ | ⟨rfl, rfl⟩)
      · exact ⟨i, .inl hi, rfl⟩
      · exact ⟨_, .inr ⟨rfl, rfl⟩, rfl⟩
  rw [hadd, hj']
  constructor
  · intro k x
    rw [hmine]
    by_cases hk : k = n.nth vs.length
    · subst hk
      rw [AList.lookup_insert]
      refine ⟨fun heq => .inl (.inr ⟨rfl, (Option.some.inj heq).symm⟩), fun hor => ?_⟩
      rcases hor with (hm | ⟨-, rfl⟩) | ho
      · exact absurd hm ((h.lookup_eq_none.mp hlast).1 x)
      · rfl
      · exact absurd ho (hfree x)
    · rw [AList.lookup_insert_ne hk, h.entries]
      exact or_congr_left ⟨.inl, fun hor => hor.resolve_right fun heq => hk heq.1⟩
  · intro k x x' hm
    rcases (hmine k x).mp hm with hm | ⟨rfl, -⟩
    · exact h.apart k x x' hm
    · exact hfree x'

theorem Holds.admits (h : Holds n vs others d) (h' : Holds n (vs ++ [v]) others (add d n v)) :
    Admits n others vs.length := by
  match vs, h, h' with
  | [], h, h' =>
    have hplain : Free others n.plain := fun x => h'.apart _ v x (mine_one.mpr ⟨rfl, rfl⟩)
    refine ⟨hplain, fun x hx => ?_⟩
    -- the number of the first value is taken, so that the value would get another one
    have hnumbered : Numbered d n :=
      ⟨h.lookup_eq_none.mpr ⟨fun _ => mine_nil, hplain⟩, h.lookup_ne_none (.inr hx)⟩
    exact h'.lookup_ne_none (.inl (mine_one.mpr ⟨rfl, rfl⟩)) (hnumbered.add v).plain
  | [u], h, h' =>
    have hmine : ∀ i x, [u, v][i]? = some x → Mine n [u, v] (n.nth i) x :=
      fun i x hi => (mine_many (by simp)).mpr ⟨i, hi, rfl⟩
    exact ⟨fun x => h'.apart _ u x (hmine 0 u rfl), fun x => h'.apart _ v x (hmine 1 v rfl)⟩
  | u :: u' :: us, h, h' =>
    have hlen : ((u :: u' :: us) ++ [v]).length ≠ 1 := by simp
    constructor
    · intro x hx
      have hplain := h.lookup_ne_none (.inr hx)
      exact h'.lookup_ne_none (.inr hx) (numbered_of_plain hplain v).plain
    · intro x
      refine h'.apart _ v x ((mine_many hlen).mpr ⟨_, ?_, rfl⟩)
      exact getElem?_append_one.mpr (.inr ⟨rfl, rfl⟩)

/-- **A further value** is added well just if the keys for it are free. -/
theorem holds_add_iff (h : Holds n vs others d) :
    Holds n (vs ++ [v]) others (add d n v) ↔ Admits n others vs.length := by
  constructor
  · exact h.admits
  · intro ha
    match vs, h, ha with
    | [], h, ha => exact h.add_first ha
    | [u], h, ha => exact h.add_second ha
    | u :: u' :: us, h, ha => exact h.add_more (by simp) ha.1 ha.2

/-- **One value in pieces**: two or more of them are never one further value. -/
theorem not_holds_adds (h : Holds n vs others d) (u u' : V) (us : List V) (w : V) :
    ¬ Holds n (vs ++ [w]) others ((u :: u' :: us).foldl (fun d v => add d n v) d) := by
  intro h'
  match vs, h, h' with
  | [], h, h' =>
    have hmine : Mine n ([] ++ [w]) n.plain w := mine_one.mpr ⟨rfl, rfl⟩
    have hnone : d.lookup n.plain = none :=
      h.lookup_eq_none.mpr ⟨fun _ => mine_nil, fun x => h'.apart _ w x hmine⟩
    have hnumbered : Numbered (add (add d n u) n u') n := by
      by_cases hplain : (add d n u).lookup n.plain = none
      · refine Numbered.add (Numbered.add ⟨hnone, fun hzero => ?_⟩ u) u'
        have hadd : add d n u = d.insert n.plain u := by rw [add, hnone, hzero]
        rw [hadd, AList.lookup_insert] at hplain
        cases hplain
      · exact numbered_of_plain hplain u'
    exact h'.lookup_ne_none (.inl hmine) (hnumbered.adds us).plain
  | [u₀], h, h' =>
    have hsome : d.lookup n.plain = some u₀ := (h.entries _ _).mpr (.inl (mine_one.mpr ⟨rfl, rfl⟩))
    have hadd : add d n u = ((d.insert (n.nth 0) u₀).insert (n.nth 1) u).erase n.plain := by
      rw [add, hsome]
    have hnumbered := numbered_of_plain (h.lookup_ne_none (.inl (mine_one.mpr ⟨rfl, rfl⟩))) u
    obtain ⟨j, htwo, hfree, htaken⟩ := hnumbered.piece u' us
    obtain ⟨x, hx⟩ := Option.ne_none_iff_exists'.mp htaken
    rcases (h'.entries _ x).mp hx with hm | ho
    · obtain ⟨i, hi, heq⟩ := (mine_many (by simp)).mp hm
      have hlt := (List.getElem?_eq_some_iff.mp hi).1
      rw [← n.nth_inj heq] at hlt
      exact absurd hlt (Nat.not_lt.mpr htwo)
    · have hne : ∀ i, i < 2 → n.nth j ≠ n.nth i := fun i hi heq =>
        absurd (n.nth_inj heq) (by lia)
      rw [hadd, AList.lookup_erase_ne (n.nth_ne j), AList.lookup_insert_ne (hne 1 (by lia)),
        AList.lookup_insert_ne (hne 0 (by lia))] at hfree
      exact h.lookup_ne_none (.inr ho) hfree
  | v₀ :: v₁ :: vs, h, h' =>
    by_cases hfree : Free others n.plain
    · -- two pieces with numbers of their own, where there is room for one
      have hnumbered := h.numbered (by simp) hfree
      obtain ⟨j, hadd, -, hj, -⟩ := hnumbered.add_eq u
      obtain ⟨j', -, hj', htaken'⟩ := (hnumbered.add u).piece u' us
      have hsome : (add d n u).lookup (n.nth j) ≠ none := by
        rw [hadd, AList.lookup_insert]
        exact Option.some_ne_none u
      have htaken := (hnumbered.add u).lookup_adds (u' :: us) hsome
      have hlast : ∀ i, d.lookup (n.nth i) = none →
          ((u :: u' :: us).foldl (fun d v => add d n v) d).lookup (n.nth i) ≠ none →
          i = (v₀ :: v₁ :: vs).length := by
        intro i hnone hsome
        obtain ⟨x, hx⟩ := Option.ne_none_iff_exists'.mp hsome
        obtain ⟨hnot, hothers⟩ := h.lookup_eq_none.mp hnone
        rcases (h'.entries _ x).mp hx with hm | ho
        · obtain ⟨i', hi', heq⟩ := (mine_many (by simp)).mp hm
          rw [← n.nth_inj heq, getElem?_append_one] at hi'
          rcases hi' with hi' | ⟨heq', -⟩
          · exact absurd ((mine_many (by simp)).mpr ⟨i, hi', rfl⟩) (hnot x)
          · exact heq'
        · exact absurd ho (hothers x)
      have hne : n.nth j' ≠ n.nth j := by
        intro heq
        rw [heq] at hj'
        exact hsome hj'
      rw [hadd, AList.lookup_insert_ne hne] at hj'
      exact hne (by rw [hlast j hj htaken, hlast j' hj' htaken'])
    · obtain ⟨x, hx⟩ : ∃ x, others n.plain x := by
        by_contra hno
        exact hfree fun x hx => hno ⟨x, hx⟩
      have hnumbered := numbered_of_plain (h.lookup_ne_none (.inr hx)) u
      exact h'.lookup_ne_none (.inr hx) (hnumbered.adds (u' :: us)).plain

end Further

end NumberedKeys
