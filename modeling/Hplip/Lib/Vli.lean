import Mathlib.Data.List.Basic

/-!
# Counts continued by 255

A count written as a chain of bytes: a byte of 255 says that another byte
follows, the first byte below 255 ends the chain, and the value is the sum.
-/

/-- The chain of bytes of `n`. -/
def vli (n : Nat) : List UInt8 :=
  List.replicate (n / 255) 255 ++ [UInt8.ofNat (n % 255)]

def readVli : List UInt8 → Option (Nat × List UInt8)
  | [] => none
  | b :: bs =>
    if b = 255 then (readVli bs).map fun r => (255 + r.1, r.2) else some (b.toNat, bs)

theorem vli_of_lt {n : Nat} (h : n < 255) : vli n = [UInt8.ofNat n] := by
  simp [vli, Nat.div_eq_of_lt h, Nat.mod_eq_of_lt h]

theorem vli_add_255 (n : Nat) : vli (n + 255) = 255 :: vli n := by
  simp [vli, List.replicate_succ]

theorem vli_length (n : Nat) : (vli n).length = n / 255 + 1 := by
  simp [vli]

theorem vli_length_le (n : Nat) : (vli n).length ≤ n + 1 := by
  rw [vli_length]
  lia

/-- **Round trip**: the reader gives the count back and stops after it. -/
theorem readVli_vli (n : Nat) (rest : List UInt8) :
    readVli (vli n ++ rest) = some (n, rest) := by
  induction n using Nat.strongRecOn with
  | ind n ih =>
    by_cases h : n < 255
    · have hne : UInt8.ofNat n ≠ 255 := fun he => by
        have := congrArg UInt8.toNat he
        rw [UInt8.toNat_ofNat'] at this
        simp at this
        lia
      have hval : (UInt8.ofNat n).toNat = n := by
        rw [UInt8.toNat_ofNat']
        lia
      rw [vli_of_lt h]
      show (if UInt8.ofNat n = 255 then _ else _) = _
      rw [if_neg hne, hval]
      rfl
    · obtain ⟨m, rfl⟩ := Nat.exists_eq_add_of_le' (Nat.le_of_not_lt h)
      rw [vli_add_255, List.cons_append, readVli, if_pos rfl, ih m (by lia)]
      simp [Nat.add_comm]

/-- What follows a field of largest value `max` for the count `n`: nothing if `n`
is smaller, otherwise the chain of what `n` exceeds it by. -/
def vliRest (max n : Nat) : List UInt8 :=
  if n < max then [] else vli (n - max)

/-- Read a count whose field holds `field`. -/
def readVliRest (max field : Nat) (bs : List UInt8) : Option (Nat × List UInt8) :=
  if field < max then some (field, bs) else (readVli bs).map fun r => (max + r.1, r.2)

theorem vliRest_of_lt {max n : Nat} (h : n < max) : vliRest max n = [] := if_pos h

theorem vliRest_of_le {max n : Nat} (h : max ≤ n) : vliRest max n = vli (n - max) :=
  if_neg (Nat.not_lt.mpr h)

theorem vliRest_length_le (max n : Nat) : (vliRest max n).length ≤ n + 1 - max := by
  by_cases h : n < max
  · rw [vliRest_of_lt h]
    exact Nat.zero_le _
  · have hchain := vli_length_le (n - max)
    rw [vliRest_of_le (Nat.not_lt.mp h)]
    lia

/-- **Round trip** of a field and what continues it. -/
theorem readVliRest_vliRest (max n : Nat) (rest : List UInt8) :
    readVliRest max (min n max) (vliRest max n ++ rest) = some (n, rest) := by
  unfold readVliRest
  by_cases h : n < max
  · rw [vliRest_of_lt h, Nat.min_eq_left (Nat.le_of_lt h), if_pos h]
    rfl
  · have hle : max ≤ n := Nat.not_lt.mp h
    rw [vliRest_of_le hle, Nat.min_eq_right hle, if_neg (Nat.lt_irrefl max), readVli_vli,
      Option.map_some, Nat.add_sub_cancel' hle]
