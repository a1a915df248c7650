import Hplip.Lib.Checked
import Hplip.Lib.CString

/-!
# Reading a PML object

`hpmud_get_pml` on the local transport writes a request and reads a reply: the outcome, perhaps
an error-code block, the object id and a value of up to 1023 bytes. Type and length of the value
share two bytes. The bytes of the buffer behind the reply are not part of it, and a load there
is a fault.
-/

namespace Hplip.Hpmud

open CString Checked

/-! ## The reply -/

def getReply : UInt8 := 0x80

def dtObjectIdentifier : UInt8 := 0

def dtErrorCode : UInt8 := 0x18

/-- `memcpy` of `n` bytes from `m[i]`. -/
def loadBytes (m : List UInt8) (i n : Nat) : Except Fault (List UInt8) :=
  if n = 0 ∨ i + n ≤ m.length then .ok ((m.drop i).take n) else .error .load

structure PmlObject where
  data : List UInt8
  type : UInt8
  pmlResult : UInt8
  deriving DecidableEq

/-- The parsing of the reply; `none` is `goto bugout`. -/
def parseReply (m : List UInt8) (bufSize : Nat) : Except Fault (Option PmlObject) := do
  let reply ← load m 0
  let status ← load m 1
  if reply ≠ getReply ∧ status &&& 0x80 ≠ 0 then return none
  let dt ← load m 2
  -- behind an error code come its length and the code
  let k := if dt = dtErrorCode then 5 else 2
  let dt ← load m k
  if dt ≠ dtObjectIdentifier then return none
  let oidLen ← load m (k + 1)
  let p := k + 2 + oidLen.toNat
  let dt ← load m p
  let low ← load m (p + 1)
  let dLen := (dt &&& 3).toNat * 256 + low.toNat
  let data ← loadBytes m (p + 2) (min dLen bufSize)
  return some ⟨data, dt, status⟩

def rOk : Nat := 0

def rIoError : Nat := 12

/-- How a channel answers: the result of writing a message, and of reading one. -/
structure PmlChannel where
  write : List UInt8 → Nat
  read : Nat × List UInt8

def getRequest (oid : List UInt8) : List UInt8 :=
  [0, dtObjectIdentifier, oid.length.toUInt8] ++ oid

/-- `hpmud_get_pml` on the local transport, with what `SnmpToPml` made of the object id. -/
def hpmudGetPml (oid : List UInt8) (channel : PmlChannel) (bufSize : Nat) :
    Except Fault (Nat × Option PmlObject) := do
  let result := channel.write (getRequest oid)
  if result ≠ rOk then return (result, none)
  if channel.read.1 ≠ rOk ∨ channel.read.2.length = 0 then return (rIoError, none)
  match ← parseReply channel.read.2 bufSize with
  | none => return (rIoError, none)
  | some object => return (rOk, some object)

/-! ## How long a reply has to be -/

def Failed (m : List UInt8) : Prop := m.getD 0 0 ≠ getReply ∧ m.getD 1 0 &&& 0x80 ≠ 0

instance (m : List UInt8) : Decidable (Failed m) := inferInstanceAs (Decidable (_ ∧ _))

def oidAt (m : List UInt8) : Nat := if m.getD 2 0 = dtErrorCode then 5 else 2

def valueAt (m : List UInt8) : Nat := oidAt m + 2 + (m.getD (oidAt m + 1) 0).toNat

def valueLength (m : List UInt8) : Nat :=
  (m.getD (valueAt m) 0 &&& 3).toNat * 256 + (m.getD (valueAt m + 1) 0).toNat

/-- The length that a reply has to have for the fields that it speaks of; a field that is not
there is taken to be zero. -/
def needed (m : List UInt8) (bufSize : Nat) : Nat :=
  if Failed m then 2
  else if m.getD (oidAt m) 0 ≠ dtObjectIdentifier then oidAt m + 1
  else valueAt m + 2 + min (valueLength m) bufSize

def described (m : List UInt8) (bufSize : Nat) : Option PmlObject :=
  if Failed m then none
  else if m.getD (oidAt m) 0 ≠ dtObjectIdentifier then none
  else some ⟨(m.drop (valueAt m + 2)).take (min (valueLength m) bufSize), m.getD (valueAt m) 0,
    m.getD 1 0⟩

theorem oidAt_bounds (m : List UInt8) : 2 ≤ oidAt m := by
  unfold oidAt
  split
  · decide
  · decide

section Parse

variable {m : List UInt8} {i n : Nat} {β : Type}

theorem load_getD (h : i < m.length) : load m i = .ok (m.getD i 0) := by
  rw [load_eq h, List.getD_eq_getElem?_getD, List.getElem?_eq_getElem h, Option.getD_some]

theorem load_short (h : ¬ i < m.length) : load m i = .error .load := by
  rw [load, List.getElem?_eq_none (Nat.le_of_not_lt h)]

theorem safe_load_bind {f : UInt8 → Except Fault β} :
    Safe (load m i >>= f) ↔ i < m.length ∧ Safe (f (m.getD i 0)) := by
  by_cases h : i < m.length
  · rw [load_getD h, and_iff_right h]
    rfl
  · rw [load_short h]
    exact iff_of_false (not_safe_error _) fun hs => h hs.1

theorem safe_loadBytes_bind {f : List UInt8 → Except Fault β} :
    Safe (loadBytes m i n >>= f) ↔ (n = 0 ∨ i + n ≤ m.length) ∧ Safe (f ((m.drop i).take n)) := by
  by_cases h : n = 0 ∨ i + n ≤ m.length
  · rw [loadBytes, if_pos h, and_iff_right h]
    rfl
  · rw [loadBytes, if_neg h]
    exact iff_of_false (not_safe_error _) fun hs => h hs.1

theorem safe_parseReply (m : List UInt8) (bufSize : Nat) :
    Safe (parseReply m bufSize) ↔ needed m bufSize ≤ m.length := by
  have hk := oidAt_bounds m
  rw [parseReply]
  simp only [safe_load_bind, safe_loadBytes_bind, safe_ite, safe_pure, implies_true, true_and,
    and_true]
  -- what is loaded, behind the checks that lead to it
  change 0 < m.length ∧ 1 < m.length ∧ (¬ Failed m → 2 < m.length ∧ oidAt m < m.length
    ∧ (¬ m.getD (oidAt m) 0 ≠ dtObjectIdentifier → oidAt m + 1 < m.length
      ∧ valueAt m < m.length ∧ valueAt m + 1 < m.length
      ∧ (min (valueLength m) bufSize = 0
        ∨ valueAt m + 2 + min (valueLength m) bufSize ≤ m.length))) ↔ _
  rw [needed]
  by_cases hfailed : Failed m
  · rw [if_pos hfailed]
    simp only [hfailed, not_true, false_implies, and_true]
    lia
  · rw [if_neg hfailed]
    by_cases hdt : m.getD (oidAt m) 0 ≠ dtObjectIdentifier
    · rw [if_pos hdt]
      refine ⟨fun h => ?_, fun h => ?_⟩
      · exact (h.2.2 hfailed).2.1
      · exact ⟨by lia, by lia, fun _ => ⟨by lia, h, fun hn => absurd hdt hn⟩⟩
    · rw [if_neg hdt]
      simp only [hfailed, hdt, not_false_eq_true, true_implies]
      have hvalue : oidAt m + 2 ≤ valueAt m := Nat.le_add_right _ _
      lia

theorem parseReply_eq {m : List UInt8} {bufSize : Nat} (h : needed m bufSize ≤ m.length) :
    parseReply m bufSize = .ok (described m bufSize) := by
  have hk := oidAt_bounds m
  have hload {β : Type} {i : Nat} (hi : i < m.length) (f : UInt8 → Except Fault β) :
      (load m i >>= f) = f (m.getD i 0) := by
    rw [load_getD hi]
    rfl
  rw [needed] at h
  rw [parseReply, described]
  by_cases hfailed : Failed m
  · rw [if_pos hfailed] at h
    rw [hload (by lia), hload (by lia), if_pos hfailed]
    exact if_pos hfailed
  · rw [if_neg hfailed] at h
    by_cases hdt : m.getD (oidAt m) 0 ≠ dtObjectIdentifier
    · rw [if_pos hdt] at h
      rw [hload (by lia), hload (by lia), if_neg hfailed, if_pos hdt]
      refine (if_neg hfailed).trans ?_
      rw [hload (by lia)]
      exact (hload (by exact h) _).trans (if_pos hdt)
    · rw [if_neg hdt] at h
      have hvalue : oidAt m + 2 ≤ valueAt m := Nat.le_add_right _ _
      rw [hload (by lia), hload (by lia), if_neg hfailed, if_neg hdt]
      refine (if_neg hfailed).trans ?_
      rw [hload (by lia)]
      refine (hload (i := oidAt m) (by lia) _).trans ((if_neg hdt).trans ?_)
      refine (hload (i := oidAt m + 1) (by lia) _).trans ?_
      refine (hload (i := valueAt m) (by lia) _).trans ?_
      refine (hload (i := valueAt m + 1) (by lia) _).trans ?_
      change (loadBytes m (valueAt m + 2) (min (valueLength m) bufSize) >>= _) = _
      rw [loadBytes, if_pos (.inr h)]
      rfl

end Parse

/-! ## Well-formed replies -/

def errorBlock : Option (UInt8 × UInt8) → List UInt8
  | none => []
  | some (len, code) => [dtErrorCode, len, code]

def idField (id rest : List UInt8) : List UInt8 :=
  dtObjectIdentifier :: id.length.toUInt8 :: (id ++ rest)

def valueField (type : UInt8) (value : List UInt8) : List UInt8 :=
  (type ||| (value.length / 256).toUInt8) :: value.length.toUInt8 :: value

def replyMessage (status : UInt8) (err : Option (UInt8 × UInt8)) (id : List UInt8) (type : UInt8)
    (value : List UInt8) : List UInt8 :=
  getReply :: status :: (errorBlock err ++ idField id (valueField type value))

def Fields (id : List UInt8) (type : UInt8) (value : List UInt8) : Prop :=
  id.length ≤ 255 ∧ type &&& 3 = 0 ∧ value.length ≤ 1023

theorem type_length_bits {type : UInt8} (htype : type &&& 3 = 0) {n : Nat} (hn : n < 4) :
    ((type ||| n.toUInt8) &&& 3).toNat = n ∧ (type ||| n.toUInt8 = type → n = 0) := by
  have hall : ∀ t < 256, UInt8.ofNat t &&& 3 = 0 → ∀ n < 4,
      ((UInt8.ofNat t ||| n.toUInt8) &&& 3).toNat = n
        ∧ (UInt8.ofNat t ||| n.toUInt8 = UInt8.ofNat t → n = 0) := by
    decide +kernel
  have htype' := hall type.toNat type.toNat_lt
  rw [UInt8.ofNat_toNat] at htype'
  exact htype' htype n hn

section Message

variable {status type : UInt8} {err : Option (UInt8 × UInt8)} {id value : List UInt8}

theorem getD_of_drop {m l : List UInt8} {k : Nat} (h : m.drop k = l) (i : Nat) :
    m.getD (k + i) 0 = l.getD i 0 := by
  rw [← h, List.getD_eq_getElem?_getD, List.getD_eq_getElem?_getD, List.getElem?_drop]

variable (status type err id value) in
theorem drop_oidAt : (replyMessage status err id type value).drop
    (oidAt (replyMessage status err id type value)) = idField id (valueField type value) := by
  cases err with
  | none => rfl
  | some e => rfl

theorem not_failed : ¬ Failed (replyMessage status err id type value) := fun h => h.1 rfl

theorem valueAt_replyMessage (hid : id.length ≤ 255) :
    valueAt (replyMessage status err id type value)
      = oidAt (replyMessage status err id type value) + 2 + id.length := by
  rw [valueAt, getD_of_drop (drop_oidAt _ _ _ _ _)]
  congr 1
  exact UInt8.toNat_ofNat_of_lt' (by simp only [UInt8.size]; omega)

variable (status type err value) in
theorem drop_valueAt (hid : id.length ≤ 255) :
    (replyMessage status err id type value).drop
      (valueAt (replyMessage status err id type value)) = valueField type value := by
  rw [valueAt_replyMessage hid, Nat.add_assoc, ← List.drop_drop, drop_oidAt status type err id value, idField,
    Nat.add_comm 2]
  exact List.drop_left

theorem valueLength_replyMessage (h : Fields id type value) :
    valueLength (replyMessage status err id type value) = value.length := by
  obtain ⟨hid, htype, hvalue⟩ := h
  have hdrop := drop_valueAt status type err value hid
  have hlow : (value.length.toUInt8).toNat = value.length % 256 := UInt8.toNat_ofNat'
  have hhigh := (type_length_bits htype (n := value.length / 256) (by lia)).1
  have h0 := getD_of_drop hdrop 0
  rw [Nat.add_zero] at h0
  rw [valueLength, h0, getD_of_drop hdrop 1]
  change ((type ||| (value.length / 256).toUInt8) &&& 3).toNat * 256
    + value.length.toUInt8.toNat = _
  rw [hhigh, hlow]
  lia

theorem needed_replyMessage (h : Fields id type value) (bufSize : Nat) :
    needed (replyMessage status err id type value) bufSize
      ≤ (replyMessage status err id type value).length := by
  have hdt : (replyMessage status err id type value).getD
      (oidAt (replyMessage status err id type value)) 0 = dtObjectIdentifier := by
    have h0 := getD_of_drop (drop_oidAt status type err id value) 0
    rwa [Nat.add_zero] at h0
  have hlen : (replyMessage status err id type value).length
      = valueAt (replyMessage status err id type value) + 2 + value.length := by
    have hdrop := congrArg List.length
      (drop_valueAt status type err value h.1)
    rw [List.length_drop, valueField, List.length_cons, List.length_cons] at hdrop
    lia
  rw [needed, if_neg not_failed, if_neg (not_not.mpr hdt), valueLength_replyMessage h, hlen]
  lia

theorem described_replyMessage (h : Fields id type value) (bufSize : Nat) :
    described (replyMessage status err id type value) bufSize
      = some ⟨value.take bufSize, type ||| (value.length / 256).toUInt8, status⟩ := by
  have hdrop := drop_valueAt status type err value h.1
  have hdt : (replyMessage status err id type value).getD
      (oidAt (replyMessage status err id type value)) 0 = dtObjectIdentifier := by
    have h0 := getD_of_drop (drop_oidAt status type err id value) 0
    rwa [Nat.add_zero] at h0
  have hdata : (replyMessage status err id type value).drop
      (valueAt (replyMessage status err id type value) + 2) = value := by
    rw [← List.drop_drop, hdrop]
    rfl
  have htype := getD_of_drop hdrop 0
  rw [Nat.add_zero] at htype
  rw [described, if_neg not_failed, if_neg (not_not.mpr hdt), valueLength_replyMessage h, hdata,
    htype]
  congr 2
  by_cases hle : value.length ≤ bufSize
  · rw [Nat.min_eq_left hle, List.take_length, List.take_of_length_le hle]
  · rw [Nat.min_eq_right (Nat.le_of_not_le hle)]

end Message

/-! ## The object that is read -/

/-- The value, its length and its type arrive from a well-formed reply, and no byte behind a
reply is taken for a part of it. -/
def GetsRight (oid : List UInt8) (channel : PmlChannel) (bufSize : Nat) : Prop :=
  ∃ answer, hpmudGetPml oid channel bufSize = .ok answer ∧
    (channel.write (getRequest oid) = rOk → channel.read.1 = rOk →
      ∀ status err id type value, Fields id type value →
        channel.read.2 = replyMessage status err id type value →
          answer = (rOk, some ⟨value.take bufSize, type, status⟩))

/-- A reply that comes is as long as its fields say, and if it is well formed its value has at
most 255 bytes. -/
def GoodReply (oid : List UInt8) (channel : PmlChannel) (bufSize : Nat) : Prop :=
  channel.write (getRequest oid) = rOk → channel.read.1 = rOk → channel.read.2 ≠ [] →
    needed channel.read.2 bufSize ≤ channel.read.2.length
      ∧ ∀ status err id type value, Fields id type value →
          channel.read.2 = replyMessage status err id type value → value.length ≤ 255

theorem hpmudGetPml_unread {oid : List UInt8} {channel : PmlChannel} (bufSize : Nat)
    (h : channel.write (getRequest oid) ≠ rOk ∨ channel.read.1 ≠ rOk ∨ channel.read.2 = []) :
    ∃ stat, hpmudGetPml oid channel bufSize = .ok (stat, none) := by
  by_cases hwrite : channel.write (getRequest oid) ≠ rOk
  · exact ⟨_, if_pos hwrite⟩
  · refine ⟨rIoError, (if_neg hwrite).trans (if_pos ?_)⟩
    rw [List.length_eq_zero_iff]
    exact h.resolve_left hwrite

theorem hpmudGetPml_read {oid : List UInt8} {channel : PmlChannel} (bufSize : Nat)
    (hwrite : channel.write (getRequest oid) = rOk) (hread : channel.read.1 = rOk)
    (hne : channel.read.2 ≠ []) :
    hpmudGetPml oid channel bufSize = (parseReply channel.read.2 bufSize >>= fun
      | none => pure (rIoError, none)
      | some object => pure (rOk, some object)) := by
  refine (if_neg (not_not.mpr hwrite)).trans (if_neg ?_)
  rintro (h | h)
  · exact h hread
  · exact hne (List.length_eq_zero_iff.mp h)

theorem replyMessage_ne_nil {status type : UInt8} {err : Option (UInt8 × UInt8)}
    {id value : List UInt8} : replyMessage status err id type value ≠ [] := List.cons_ne_nil _ _

/-- For every request, every answer of the channel and every size of the client's buffer. -/
theorem getsRight_iff (oid : List UInt8) (channel : PmlChannel) (bufSize : Nat) :
    GetsRight oid channel bufSize ↔ GoodReply oid channel bufSize := by
  constructor
  · rintro ⟨answer, hrun, hright⟩ hwrite hread hne
    have hright := hright hwrite hread
    rw [hpmudGetPml_read bufSize hwrite hread hne] at hrun
    have hneeded : needed channel.read.2 bufSize ≤ channel.read.2.length := by
      rw [← safe_parseReply]
      cases hparse : parseReply channel.read.2 bufSize with
      | ok r => exact safe_ok r
      | error e =>
        rw [hparse] at hrun
        cases hrun
    refine ⟨hneeded, fun status err id type value hfields hm => ?_⟩
    have hanswer := hright status err id type value hfields hm
    rw [parseReply_eq hneeded, hm, described_replyMessage hfields] at hrun
    have hsame := (Except.ok.inj hrun).trans hanswer
    -- the high byte of the length holds the bits of the type too
    have htype : type ||| (value.length / 256).toUInt8 = type :=
      (PmlObject.mk.inj (Option.some.inj (Prod.mk.inj hsame).2)).2.1
    have hbits := hfields.2.2
    have hzero := (type_length_bits hfields.2.1 (n := value.length / 256) (by lia)).2 htype
    lia
  · intro hgood
    -- without a reply there is nothing that would have to be right
    by_cases hunread : channel.write (getRequest oid) ≠ rOk ∨ channel.read.1 ≠ rOk
        ∨ channel.read.2 = []
    · obtain ⟨stat, hrun⟩ := hpmudGetPml_unread bufSize hunread
      refine ⟨_, hrun, fun hwrite hread status err id type value _ hm => ?_⟩
      rcases hunread with h | h | h
      · exact absurd hwrite h
      · exact absurd hread h
      · exact absurd (hm.symm.trans h) replyMessage_ne_nil
    · push Not at hunread
      obtain ⟨hwrite, hread, hne⟩ := hunread
      obtain ⟨hneeded, hshort⟩ := hgood hwrite hread hne
      have hrun := hpmudGetPml_read bufSize hwrite hread hne
      rw [parseReply_eq hneeded] at hrun
      cases hobject : described channel.read.2 bufSize with
      | none =>
        rw [hobject] at hrun
        refine ⟨_, hrun, fun _ _ status err id type value hfields hm => ?_⟩
        rw [hm, described_replyMessage hfields] at hobject
        cases hobject
      | some object =>
        rw [hobject] at hrun
        refine ⟨_, hrun, fun _ _ status err id type value hfields hm => ?_⟩
        have hlow := hshort status err id type value hfields hm
        rw [hm, described_replyMessage hfields, Nat.div_eq_of_lt (by lia)] at hobject
        cases hobject
        have hor : type ||| (0 : Nat).toUInt8 = type := UInt8.or_zero
        rw [hor]

/-- A value of 256 bytes: the lowest bit of the type that is handed out is one of the length.
A reply of two bytes: the rest of the buffer is parsed. -/
theorem reply_read_wrong : ¬ GetsRight [1, 2]
      ⟨fun _ => rOk, rOk, replyMessage 0 none [1, 2] 0x10 (List.replicate 256 0)⟩ 1023
    ∧ ¬ GetsRight [1, 2] ⟨fun _ => rOk, rOk, [getReply, 0x82]⟩ 1023 := by
  constructor
  · have hfields : Fields [1, 2] 0x10 (List.replicate 256 0) := by
      refine ⟨by decide, by decide, ?_⟩
      rw [List.length_replicate]
      decide
    rintro ⟨answer, hrun, hright⟩
    have hanswer := hright rfl rfl 0 none [1, 2] 0x10 (List.replicate 256 0) hfields rfl
    rw [hpmudGetPml_read 1023 rfl rfl replyMessage_ne_nil,
      parseReply_eq (needed_replyMessage hfields 1023), described_replyMessage hfields] at hrun
    have hsame := (Except.ok.inj hrun).trans hanswer
    have htype := (PmlObject.mk.inj (Option.some.inj (Prod.mk.inj hsame).2)).2.1
    rw [List.length_replicate] at htype
    exact absurd htype (by decide)
  · rintro ⟨answer, hrun, -⟩
    cases hrun

end Hplip.Hpmud
