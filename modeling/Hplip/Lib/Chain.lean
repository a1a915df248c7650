import Mathlib.Data.List.Basic
import Mathlib.Data.List.Nodup
import Mathlib.Logic.Function.Basic

/-!
# Chains through a successor table

A linked structure kept in a table: each link names the next one, up to an end marker.
-/

universe u

variable {α : Type u} {next next' : α → α} {Link End : α → Prop}

/-- The links from `a` on are `l`, and `m` ends them. -/
inductive Chain (next : α → α) (Link End : α → Prop) : α → List α → α → Prop
  | nil {m : α} : End m → Chain next Link End m [] m
  | cons {a m : α} {l : List α} : Link a → Chain next Link End (next a) l m →
      Chain next Link End a (a :: l) m

namespace Chain

theorem link {a m : α} {l : List α} (h : Chain next Link End a l m) : ∀ b ∈ l, Link b := by
  induction h with
  | nil _ => exact fun b hb => absurd hb List.not_mem_nil
  | cons hlink _ ih =>
    intro b hb
    cases hb with
    | head => exact hlink
    | tail _ hb => exact ih b hb

theorem isEnd {a m : α} {l : List α} (h : Chain next Link End a l m) : End m := by
  induction h with
  | nil hend => exact hend
  | cons _ _ ih => exact ih

theorem unique (hsep : ∀ a, Link a → ¬ End a) {a m m' : α} {l l' : List α}
    (h : Chain next Link End a l m) (h' : Chain next Link End a l' m') : l = l' ∧ m = m' := by
  induction h generalizing l' with
  | nil hend =>
    cases h' with
    | nil _ => exact ⟨rfl, rfl⟩
    | cons hlink _ => exact absurd hend (hsep _ hlink)
  | cons hlink _ ih =>
    cases h' with
    | nil hend => exact absurd hend (hsep _ hlink)
    | cons _ hrest =>
      obtain ⟨rfl, rfl⟩ := ih hrest
      exact ⟨rfl, rfl⟩

theorem suffix {a b m : α} {l : List α} (h : Chain next Link End a l m) (hb : b ∈ l) :
    ∃ l', b :: l' <:+ l ∧ Chain next Link End b (b :: l') m := by
  induction h with
  | nil _ => exact absurd hb List.not_mem_nil
  | cons hlink hrest ih =>
    cases hb with
    | head => exact ⟨_, List.suffix_rfl, .cons hlink hrest⟩
    | tail _ hb =>
      obtain ⟨l', hsuffix, hchain⟩ := ih hb
      exact ⟨l', hsuffix.trans (List.suffix_cons ..), hchain⟩

theorem nodup (hsep : ∀ a, Link a → ¬ End a) {a m : α} {l : List α}
    (h : Chain next Link End a l m) : l.Nodup := by
  induction h with
  | nil _ => exact List.nodup_nil
  | @cons a m l hlink hrest ih =>
    refine List.nodup_cons.mpr ⟨fun hmem => ?_, ih⟩
    obtain ⟨l', hsuffix, hchain⟩ := hrest.suffix hmem
    have hsame : a :: l = a :: l' := (unique hsep (.cons hlink hrest) hchain).1
    have hlong := hsuffix.length_le
    rw [← hsame, List.length_cons] at hlong
    exact absurd hlong (Nat.not_succ_le_self _)

theorem congr {a m : α} {l : List α} (h : Chain next Link End a l m)
    (hsame : ∀ b ∈ l, next' b = next b) : Chain next' Link End a l m := by
  induction h with
  | nil hend => exact .nil hend
  | cons hlink _ ih =>
    refine .cons hlink ?_
    rw [hsame _ List.mem_cons_self]
    exact ih fun b hb => hsame b (List.mem_cons_of_mem _ hb)

end Chain
