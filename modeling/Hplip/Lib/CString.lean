import Mathlib.Data.List.Basic
import Mathlib.Data.List.DropRight
import Mathlib.Data.List.TakeWhile
import Mathlib.Tactic.Common

/-!
# NUL-terminated strings in bounded memory

A string is the list of its characters; in memory a NUL follows. A pointer into it is the
list of the cells from there on, so a load through the pointer at the empty list is one
past the object. A buffer is the list of its cells, and a store at or past its length is
refused.
-/

namespace CString

inductive Fault where
  | load
  | store
  deriving DecidableEq, Repr

structure CStr where
  chars : List UInt8
  noNul : ∀ c ∈ chars, c ≠ 0

/-- The cells of a string that has the characters `l`. -/
def mem (l : List UInt8) : List UInt8 := l ++ [0]

/-- `m[i]` -/
def load (m : List UInt8) (i : Nat) : Except Fault UInt8 :=
  match m[i]? with
  | some c => .ok c
  | none => .error .load

/-- `m[i] = c` -/
def store (m : List UInt8) (i : Nat) (c : UInt8) : Except Fault (List UInt8) :=
  if i < m.length then .ok (m.set i c) else .error .store

theorem load_eq {m : List UInt8} {i : Nat} (h : i < m.length) : load m i = .ok m[i] := by
  simp [load, h]

theorem store_eq {m : List UInt8} {i : Nat} (c : UInt8) (h : i < m.length) :
    store m i c = .ok (m.set i c) := if_pos h

theorem store_error {m : List UInt8} {i : Nat} (c : UInt8) (h : m.length ≤ i) :
    store m i c = .error .store := if_neg (Nat.not_lt.mpr h)

theorem store_append (l : List UInt8) (d c : UInt8) (rest : List UInt8) :
    store (l ++ d :: rest) l.length c = .ok (l ++ c :: rest) := by
  rw [store_eq c (by simp)]
  simp

/-! ## Scanning -/

/-- `for (; keep(p[i]) && i < n; i++);`, the load before the bound. -/
def scanWhile (keep : UInt8 → Bool) : List UInt8 → Except Fault Nat
  | [] => .error .load
  | c :: p =>
    if keep c then
      match scanWhile keep p with
      | .ok i => .ok (i + 1)
      | .error e => .error e
    else .ok 0

theorem scanWhile_eq_ok {keep : UInt8 → Bool} {p : List UInt8} {i : Nat} :
    scanWhile keep p = .ok i ↔ ∃ l c r, p = l ++ c :: r ∧ (∀ x ∈ l, keep x = true) ∧
      keep c = false ∧ l.length = i := by
  induction p generalizing i with
  | nil =>
    refine iff_of_false (fun h => nomatch h) ?_
    rintro ⟨l, c, r, h, -⟩
    simp at h
  | cons d p ih =>
    rw [scanWhile]
    by_cases hd : keep d = true
    · rw [if_pos hd]
      constructor
      · intro h
        cases hscan : scanWhile keep p with
        | error e =>
          rw [hscan] at h
          cases h
        | ok j =>
          rw [hscan] at h
          cases h
          obtain ⟨l, c, r, rfl, hl, hc, rfl⟩ := ih.mp hscan
          exact ⟨d :: l, c, r, rfl, List.forall_mem_cons.mpr ⟨hd, hl⟩, hc, rfl⟩
      · rintro ⟨l, c, r, hp, hl, hc, rfl⟩
        cases l with
        | nil =>
          obtain ⟨rfl, rfl⟩ := List.cons.inj hp
          rw [hc] at hd
          cases hd
        | cons e l =>
          obtain ⟨rfl, rfl⟩ := List.cons.inj hp
          rw [ih.mpr ⟨l, c, r, rfl, (List.forall_mem_cons.mp hl).2, hc, rfl⟩]
          rfl
    · rw [if_neg hd]
      constructor
      · intro h
        cases h
        exact ⟨[], d, p, rfl, by simp, Bool.eq_false_iff.mpr hd, rfl⟩
      · rintro ⟨l, c, r, hp, hl, hc, rfl⟩
        cases l with
        | nil => rfl
        | cons e l =>
          obtain ⟨rfl, rfl⟩ := List.cons.inj hp
          exact absurd (hl d List.mem_cons_self) hd

/-! ## Copying -/

/-- `for (; p[i] is not a delimiter && i < n; i++) buf[i] = p[i];` with `p` the cells from
`p[i]` on. -/
def copyWhile (stop : UInt8 → Bool) (n : Nat) :
    List UInt8 → Nat → List UInt8 → Except Fault (Nat × List UInt8)
  | [], _, _ => .error .load
  | c :: p, i, buf =>
    if stop c = false ∧ i < n then
      match store buf i c with
      | .ok buf => copyWhile stop n p (i + 1) buf
      | .error e => .error e
    else .ok (i, buf)

/-- `buf[i] = 0; return i;` -/
def terminate : Nat × List UInt8 → Except Fault (Nat × List UInt8)
  | (i, buf) =>
    match store buf i 0 with
    | .ok buf => .ok (i, buf)
    | .error e => .error e

def field (stop : UInt8 → Bool) (p : List UInt8) : List UInt8 :=
  p.takeWhile fun c => !stop c

theorem copyWhile_step {stop : UInt8 → Bool} {n : Nat} {c : UInt8} {p l : List UInt8}
    {d : UInt8} {rest : List UInt8} (hc : stop c = false) (hl : l.length < n) :
    copyWhile stop n (c :: p) l.length (l ++ d :: rest)
      = copyWhile stop n p (l.length + 1) (l ++ c :: rest) := by
  rw [copyWhile, if_pos ⟨hc, hl⟩, store_append]

theorem copyWhile_found {stop : UInt8 → Bool} {n : Nat} {p : List UInt8}
    (hp : ∃ c ∈ p, stop c = true) {l m : List UInt8} (hm : l.length + m.length = n)
    (hf : (field stop p).length ≤ m.length) :
    copyWhile stop n p l.length (l ++ m) = .ok ((l ++ field stop p).length,
      l ++ field stop p ++ m.drop (field stop p).length) := by
  induction p generalizing l m with
  | nil =>
    obtain ⟨c, hc, -⟩ := hp
    cases hc
  | cons c p ih =>
    by_cases hc : stop c = true
    · rw [copyWhile, if_neg (by simp [hc])]
      simp [field, hc]
    · have hc' : stop c = false := Bool.eq_false_iff.mpr hc
      have hfield : field stop (c :: p) = c :: field stop p := by simp [field, hc']
      rw [hfield] at hf ⊢
      cases m with
      | nil => simp at hf
      | cons d m =>
        have hrest : ∃ c ∈ p, stop c = true := by
          obtain ⟨e, he, hs⟩ := hp
          rcases List.mem_cons.mp he with rfl | he
          · exact absurd hs hc
          · exact ⟨e, he, hs⟩
        rw [List.length_cons] at hm hf
        rw [copyWhile_step hc' (by lia)]
        have hnext := ih hrest (l := l ++ [c]) (m := m)
          (by rw [List.length_append, List.length_singleton]; lia) (by simpa using hf)
        simpa using hnext

theorem copyWhile_full (stop : UInt8 → Bool) {n : Nat} (p : List UInt8) {l m : List UInt8}
    (hm : l.length + m.length = n)
    (hf : m.length < (field stop p).length ∨ ∀ c ∈ p, stop c = false) :
    copyWhile stop n p l.length (l ++ m) = .error .load
      ∨ ∃ buf, buf.length = n ∧ copyWhile stop n p l.length (l ++ m) = .ok (n, buf) := by
  induction p generalizing l m with
  | nil => exact .inl rfl
  | cons c p ih =>
    cases m with
    | nil =>
      right
      rw [List.length_nil, Nat.add_zero] at hm
      refine ⟨l ++ [], by simpa using hm, ?_⟩
      rw [copyWhile, if_neg (by lia), hm]
    | cons d m =>
      have hc : stop c = false := by
        rcases hf with hf | hf
        · by_contra hne
          simp [field, hne] at hf
        · exact hf c List.mem_cons_self
      rw [List.length_cons] at hm
      rw [copyWhile_step hc (by lia)]
      have hnext := ih (l := l ++ [c]) (m := m)
        (by rw [List.length_append, List.length_singleton]; lia) (by
          rcases hf with hf | hf
          · left
            simpa [field, hc] using hf
          · exact .inr fun e he => hf e (List.mem_cons_of_mem _ he))
      simpa using hnext

theorem copyWhile_eq_ok {stop : UInt8 → Bool} {n j : Nat} {p l m b : List UInt8}
    (hm : l.length + m.length = n) :
    copyWhile stop n p l.length (l ++ m) = .ok (j, b) ↔ ∃ a c r, p = a ++ c :: r ∧
      (∀ x ∈ a, stop x = false) ∧ (stop c = true ∨ a.length = m.length) ∧ a.length ≤ m.length ∧
      j = (l ++ a).length ∧ b = l ++ a ++ m.drop a.length := by
  induction p generalizing l m with
  | nil =>
    refine iff_of_false (fun h => nomatch h) ?_
    rintro ⟨a, c, r, h, -⟩
    simp at h
  | cons d p ih =>
    by_cases hgo : stop d = false ∧ m ≠ []
    · obtain ⟨hd, hne⟩ := hgo
      obtain ⟨x, m, rfl⟩ := List.exists_cons_of_ne_nil hne
      rw [List.length_cons] at hm
      have hnext := ih (l := l ++ [d]) (m := m)
        (by rw [List.length_append, List.length_singleton]; lia)
      rw [List.length_append, List.length_singleton, List.append_assoc, List.singleton_append]
        at hnext
      rw [copyWhile_step hd (by lia), hnext]
      constructor
      · rintro ⟨a, c, r, rfl, ha, hstop, hle, rfl, rfl⟩
        refine ⟨d :: a, c, r, rfl, List.forall_mem_cons.mpr ⟨hd, ha⟩, ?_⟩
        simpa using ⟨hstop, hle⟩
      · rintro ⟨a, c, r, hp, ha, hstop, hle, rfl, rfl⟩
        cases a with
        | nil =>
          obtain ⟨rfl, rfl⟩ := List.cons.inj hp
          rcases hstop with hstop | hstop
          · rw [hd] at hstop
            cases hstop
          · cases hstop
        | cons e a =>
          obtain ⟨rfl, rfl⟩ := List.cons.inj hp
          have hstop' : stop c = true ∨ a.length = m.length := by simpa using hstop
          have hle' : a.length ≤ m.length := by simpa using hle
          exact ⟨a, c, r, rfl, (List.forall_mem_cons.mp ha).2, hstop', hle', by simp, by simp⟩
    · have hend : ¬ (stop d = false ∧ l.length < n) := by
        rintro ⟨hd, hl⟩
        refine hgo ⟨hd, ?_⟩
        rintro rfl
        rw [List.length_nil] at hm
        lia
      rw [copyWhile, if_neg hend]
      constructor
      · intro h
        cases h
        refine ⟨[], d, p, rfl, by simp, ?_, Nat.zero_le _, by simp, by simp⟩
        by_contra hne
        push Not at hne
        refine hgo ⟨Bool.eq_false_iff.mpr hne.1, ?_⟩
        rintro rfl
        exact hne.2 rfl
      · rintro ⟨a, c, r, hp, ha, -, hle, rfl, rfl⟩
        cases a with
        | nil => simp
        | cons e a =>
          obtain ⟨rfl, rfl⟩ := List.cons.inj hp
          refine absurd ⟨ha d List.mem_cons_self, ?_⟩ hgo
          rintro rfl
          simp at hle

def copyTerminated (stop : UInt8 → Bool) (n : Nat) (p buf : List UInt8) :
    Except Fault (Nat × List UInt8) :=
  match copyWhile stop n p 0 buf with
  | .ok r => terminate r
  | .error e => .error e

theorem copyTerminated_ok {stop : UInt8 → Bool} {n : Nat} {p buf : List UInt8}
    (hp : ∃ c ∈ p, stop c = true) (hbuf : buf.length = n) (hf : (field stop p).length < n) :
    copyTerminated stop n p buf = .ok ((field stop p).length,
      field stop p ++ 0 :: buf.drop ((field stop p).length + 1)) := by
  have hcopy := copyWhile_found hp (l := []) (m := buf) (n := n) (by simpa using hbuf)
    (by omega)
  simp only [List.length_nil, List.nil_append] at hcopy
  rw [copyTerminated, hcopy]
  obtain ⟨d, hd⟩ : ∃ d, buf.drop (field stop p).length
      = d :: buf.drop ((field stop p).length + 1) :=
    ⟨_, List.drop_eq_getElem_cons (by omega)⟩
  rw [hd]
  simp only [terminate, store_append]

theorem copyTerminated_error (stop : UInt8 → Bool) {n : Nat} (p : List UInt8) {buf : List UInt8}
    (hbuf : buf.length = n)
    (hf : n ≤ (field stop p).length ∨ ∀ c ∈ p, stop c = false) :
    ∃ e, copyTerminated stop n p buf = .error e := by
  have hterm : ∀ b : List UInt8, b.length = n → terminate (n, b) = .error .store := by
    intro b hb
    rw [terminate, store_error 0 (by lia)]
  by_cases heq : (∃ c ∈ p, stop c = true) ∧ (field stop p).length = n
  · have hcopy := copyWhile_found heq.1 (l := []) (m := buf) (n := n) (by simpa using hbuf)
      (by lia)
    simp only [List.length_nil, List.nil_append] at hcopy
    rw [copyTerminated, hcopy]
    refine ⟨.store, ?_⟩
    rw [heq.2, ← hbuf, List.drop_length, List.append_nil, hbuf]
    exact hterm _ heq.2
  · have hfull := copyWhile_full stop p (n := n) (l := []) (m := buf)
      (by simpa using hbuf) (by
        by_cases hd : ∃ c ∈ p, stop c = true
        · rcases hf with hf | hf
          · left
            have hne : (field stop p).length ≠ n := fun h => heq ⟨hd, h⟩
            lia
          · obtain ⟨c, hc, hs⟩ := hd
            rw [hf c hc] at hs
            cases hs
        · right
          intro c hc
          by_contra hs
          exact hd ⟨c, hc, by simpa using hs⟩)
    simp only [List.length_nil, List.nil_append] at hfull
    rcases hfull with h | ⟨b, hb, h⟩
    · exact ⟨.load, by rw [copyTerminated, h]⟩
    · exact ⟨.store, by rw [copyTerminated, h]; exact hterm b hb⟩

/-! ## Trimming -/

/-- `for (; buf[j] == c && j > 0; j--);` -/
def trimBack (c : UInt8) (buf : List UInt8) : Nat → Except Fault Nat
  | 0 =>
    match load buf 0 with
    | .ok _ => .ok 0
    | .error e => .error e
  | j + 1 =>
    match load buf (j + 1) with
    | .ok d => if d = c then trimBack c buf j else .ok (j + 1)
    | .error e => .error e

/-- A list without the `c`s at its end, its first element kept. -/
def trimmed (c : UInt8) : List UInt8 → List UInt8
  | [] => []
  | a :: l => a :: l.rdropWhile (· = c)

theorem trimmed_concat_of_eq (c : UInt8) {l : List UInt8} (hl : l ≠ []) :
    trimmed c (l ++ [c]) = trimmed c l := by
  cases l with
  | nil => exact absurd rfl hl
  | cons a l =>
    rw [List.cons_append, trimmed, trimmed, List.rdropWhile_concat_pos]
    simp

theorem trimmed_concat_of_ne {c d : UInt8} (h : d ≠ c) (l : List UInt8) :
    trimmed c (l ++ [d]) = l ++ [d] := by
  cases l with
  | nil => simp [trimmed]
  | cons a l =>
    rw [List.cons_append, trimmed, List.rdropWhile_concat_neg]
    simpa using h

theorem trimmed_prefix (c : UInt8) (l : List UInt8) : trimmed c l <+: l := by
  cases l with
  | nil => exact List.prefix_rfl
  | cons a l => exact (List.prefix_cons_inj a).mpr (List.rdropWhile_prefix _ _)

theorem trimmed_ne_nil (c : UInt8) {l : List UInt8} (hl : l ≠ []) : trimmed c l ≠ [] := by
  cases l with
  | nil => exact absurd rfl hl
  | cons a l => simp [trimmed]

theorem trimmed_eq_iff {c : UInt8} {l m : List UInt8} (hm : m ≠ []) :
    trimmed c l = m ↔ (∃ k, l = m ++ List.replicate k c)
      ∧ (m.length = 1 ∨ m.getLast? ≠ some c) := by
  induction l using List.reverseRecOn with
  | nil =>
    refine iff_of_false (fun h => hm h.symm) ?_
    rintro ⟨⟨k, hk⟩, -⟩
    exact hm (List.append_eq_nil_iff.mp hk.symm).1
  | append_singleton l d ih =>
    by_cases hd : d = c
    · subst hd
      by_cases hl : l = []
      · subst hl
        constructor
        · rintro rfl
          exact ⟨⟨0, by simp [trimmed]⟩, .inl (by simp [trimmed])⟩
        · rintro ⟨⟨k, hk⟩, -⟩
          cases m with
          | nil => exact absurd rfl hm
          | cons a m =>
            simp only [List.nil_append, List.cons_append, List.cons.injEq, List.nil_eq,
              List.append_eq_nil_iff] at hk
            rw [hk.1, hk.2.1]
            simp [trimmed]
      · rw [trimmed_concat_of_eq d hl, ih]
        refine and_congr_left fun hlast => ?_
        constructor
        · rintro ⟨k, rfl⟩
          exact ⟨k + 1, by rw [List.replicate_succ', List.append_assoc]⟩
        · rintro ⟨k, hk⟩
          cases k with
          | zero =>
            rw [List.replicate_zero, List.append_nil] at hk
            subst hk
            rcases hlast with h | h
            · simp [hl] at h
            · simp at h
          | succ k =>
            rw [List.replicate_succ', ← List.append_assoc] at hk
            exact ⟨k, List.append_cancel_right hk⟩
    · rw [trimmed_concat_of_ne hd]
      constructor
      · rintro rfl
        exact ⟨⟨0, by simp⟩, .inr (by simpa using hd)⟩
      · rintro ⟨⟨k, hk⟩, -⟩
        cases k with
        | zero => simpa using hk
        | succ k =>
          rw [List.replicate_succ', ← List.append_assoc] at hk
          exact absurd (List.append_inj_right' hk rfl) (by simpa using hd)

theorem trimBack_spec (c : UInt8) (l rest : List UInt8) (hl : l ≠ []) :
    trimBack c (l ++ rest) (l.length - 1) = .ok ((trimmed c l).length - 1) := by
  induction l using List.reverseRecOn generalizing rest with
  | nil => exact absurd rfl hl
  | append_singleton l d ih =>
    rw [List.length_append, List.length_singleton, Nat.add_sub_cancel, List.append_assoc]
    cases l with
    | nil =>
      rw [List.length_nil, trimBack, load_eq (by simp)]
      simp [trimmed]
    | cons a l =>
      have hget : load ((a :: l) ++ ([d] ++ rest)) (l.length + 1) = .ok d := by
        rw [load_eq (by simp)]
        simp
      rw [List.length_cons, trimBack, hget]
      by_cases hd : d = c
      · subst hd
        simp only [if_true]
        rw [trimmed_concat_of_eq d (List.cons_ne_nil a l)]
        simpa using ih ([d] ++ rest) (List.cons_ne_nil a l)
      · simp only [if_neg hd]
        rw [trimmed_concat_of_ne hd]
        simp

/-! ## Searching -/

/-- Whether a pattern stands at the front, its characters compared by `eq`. -/
def startsWith (eq : UInt8 → UInt8 → Bool) : List UInt8 → List UInt8 → Bool
  | [], _ => true
  | _ :: _, [] => false
  | a :: pat, c :: s => eq a c && startsWith eq pat s

def after (eq : UInt8 → UInt8 → Bool) (pat : List UInt8) : List UInt8 → Option (List UInt8)
  | [] => if pat = [] then some [] else none
  | c :: s => if startsWith eq pat (c :: s) then some ((c :: s).drop pat.length)
    else after eq pat s

theorem mem_of_after {eq : UInt8 → UInt8 → Bool} {pat s t : List UInt8}
    (h : after eq pat s = some t) {c : UInt8} (hc : c ∈ t) : c ∈ s := by
  induction s with
  | nil =>
    rw [after] at h
    split at h
    · cases h
      exact hc
    · cases h
  | cons d s ih =>
    rw [after] at h
    split at h
    · cases h
      exact List.mem_of_mem_drop hc
    · exact List.mem_cons_of_mem d (ih h)

end CString
