import Mathlib
import Hplip.Lib.Backtrack

/-!
# Device URIs (device.py)

A device is named by its back end, its bus and its model, and by a key: a serial number, a device
file, an address or a name in the network, where a port may follow. One regular expression takes
the name apart again, and its groups are read by their numbers.

A text is a list of characters, in the classes of a byte string: `\s` and `\d` know ASCII only.
-/

namespace Hplip.Base

open Matcher

/-! ## The pattern -/

/-- What `\s` matches. -/
def isSpace (c : Char) : Bool := c.toNat = 32 ∨ 9 ≤ c.toNat ∧ c.toNat ≤ 13

/-- What `\S` matches. -/
def nonblank (c : Char) : Bool := !isSpace c

/-- What `.` matches. -/
def dot (c : Char) : Bool := c ≠ '\n'

def star (_ : Nat) : Bool := true

def plus (n : Nat) : Bool := 0 < n

/-- Fixed text, upper or lower case (`re.IGNORECASE`). -/
def word (w : List Char) : Matcher Char Unit := literal Char.toLower w

abbrev Groups : Type := List (Option (List Char))

/-- `\d{1,3}`. -/
def number : Matcher Char (List Char) := greedy Char.isDigit fun n => 0 < n ∧ n ≤ 3

/-- A key that goes on to the next blank; the groups are those that its value sets. -/
def valueKey (w : List Char) (k : Nat → Bool) (groups : List Char → Groups) :
    Matcher Char Groups := do
  word w
  let v ← greedy nonblank k
  pure (groups v)

/-- `serial=(\S*)`. -/
def serialKey : Matcher Char Groups :=
  valueKey ['s', 'e', 'r', 'i', 'a', 'l', '='] star fun v => [some v, none, none, none, none]

/-- `device=(\S*)`. -/
def deviceKey : Matcher Char Groups :=
  valueKey ['d', 'e', 'v', 'i', 'c', 'e', '='] star fun v => [none, some v, none, none, none]

/-- `\d{1,3}\.\d{1,3}\.\d{1,3}\.\d{1,3}[^&]*`. -/
def address : Matcher Char (List Char) := do
  let a ← number
  word ['.']
  let b ← number
  word ['.']
  let c ← number
  word ['.']
  let d ← number
  let e ← greedy (fun c => c ≠ '&') star
  pure (a ++ '.' :: (b ++ '.' :: (c ++ '.' :: (d ++ e))))

/-- `ip=(\d{1,3}\.\d{1,3}\.\d{1,3}\.\d{1,3}[^&]*)`. -/
def ipKey : Matcher Char Groups := do
  word ['i', 'p', '=']
  let v ← address
  pure [none, none, some v, none, none]

/-- `zc=(\S+)`. -/
def zcKey : Matcher Char Groups :=
  valueKey ['z', 'c', '='] plus fun v => [none, none, none, some v, none]

/-- `hostname=(\S+)`. -/
def hostnameKey : Matcher Char Groups :=
  valueKey ['h', 'o', 's', 't', 'n', 'a', 'm', 'e', '='] plus
    fun v => [none, none, none, none, some v]

def keys : Matcher Char Groups :=
  orElse serialKey (orElse deviceKey (orElse ipKey (orElse zcKey hostnameKey)))

/-- `&port=(\d)`. -/
def portKey : Matcher Char (Option (List Char)) := do
  word ['&', 'p', 'o', 'r', 't', '=']
  let d ← greedy Char.isDigit fun n => n = 1
  pure (some d)

/-- `(?:&port=(\d))?`. -/
def port : Matcher Char (Option (List Char)) := orElse portKey (pure none)

def keyGroups : Matcher Char Groups := do
  let k ← keys
  let p ← port
  pure (k ++ [p])

/-- `(\S*?)\?`, and on. -/
def modelGroups : Matcher Char Groups := do
  let model ← reluctant nonblank star
  word ['?']
  let k ← keyGroups
  pure (some model :: k)

/-- `(.*?)/`, and on. -/
def busGroups : Matcher Char Groups := do
  let bus ← reluctant dot star
  word ['/']
  let k ← modelGroups
  pure (some bus :: k)

def patDeviceuri : Matcher Char Groups := do
  let backEnd ← greedy dot star
  word [':', '/']
  let k ← busGroups
  pure (some backEnd :: k)

/-! ## The code -/

inductive Error where
  | invalidDeviceUri

inductive Port where
  | number (n : Int)
  | text (s : List Char)

/-- What `parseDeviceURI` returns. -/
structure Parsed where
  backEnd : List Char
  isHp : Bool
  bus : List Char
  model : List Char
  serial : List Char
  devFile : List Char
  host : List Char
  zc : List Char
  port : Port

def hpBackEnds : List (List Char) :=
  [['h', 'p'], ['h', 'p', 'f', 'a', 'x'], ['h', 'p', 'a', 'i', 'o']]

def net : List Char := ['n', 'e', 't']

def validBuses : List (List Char) := [['u', 's', 'b'], net, ['b', 't'], ['f', 'w'], ['p', 'a', 'r']]

/-- `m.group(n) or ''`. -/
def group (m : Groups) (n : Nat) : List Char := (m.getD (n - 1) none).getD []

/-- `int`, of decimal digits. -/
def intDigits (s : List Char) : Option Int :=
  if s ≠ [] ∧ s.all Char.isDigit then
    some (s.foldl (fun n c => 10 * n + (c.toNat - '0'.toNat : Nat)) 0)
  else none

/-- `int`, of a text without blanks. -/
def int : List Char → Option Int
  | '-' :: s => (intDigits s).map (- ·)
  | '+' :: s => intDigits s
  | s => intDigits s

def netPort (p : Port) : Int :=
  let n := match p with
    | .number n => n
    | .text s => (int s).getD 1
  if n = 0 then 1 else n

def readGroups (m : Groups) : Except Error Parsed :=
  let backEnd := (group m 1).map Char.toLower
  let bus := (group m 2).map Char.toLower
  if bus ∉ validBuses then .error .invalidDeviceUri
  else
    let zc := group m 7
    let hostname := group m 8
    let port := if group m 8 ≠ [] then Port.text (group m 8) else Port.number 1
    .ok {
      backEnd := backEnd
      isHp := backEnd ∈ hpBackEnds
      bus := bus
      model := group m 3
      serial := group m 4
      devFile := group m 5
      host := if hostname ≠ [] then hostname else if zc ≠ [] then zc else group m 6
      zc := zc
      port := if bus = net then .number (netPort port) else port }

def parseDeviceURI (deviceUri : List Char) : Except Error Parsed :=
  match first patDeviceuri deviceUri with
  | none => .error .invalidDeviceUri
  | some (m, _) => readGroups m

/-! ## Names -/

inductive Key where
  | serial
  | device
  | ip
  | zc
  | hostname
  deriving DecidableEq

def Key.text : Key → List Char
  | .serial => ['s', 'e', 'r', 'i', 'a', 'l', '=']
  | .device => ['d', 'e', 'v', 'i', 'c', 'e', '=']
  | .ip => ['i', 'p', '=']
  | .zc => ['z', 'c', '=']
  | .hostname => ['h', 'o', 's', 't', 'n', 'a', 'm', 'e', '=']

def IsNumber (a : List Char) : Prop := Run Char.isDigit (fun n => 0 < n ∧ n ≤ 3) a

inductive IsQuad : List Char → Prop
  | intro {a b c d : List Char} (ha : IsNumber a) (hb : IsNumber b) (hc : IsNumber c)
      (hd : IsNumber d) : IsQuad (a ++ '.' :: (b ++ '.' :: (c ++ '.' :: d)))

structure Components where
  backEnd : List Char
  bus : List Char
  model : List Char
  key : Key
  value : List Char
  port : Option Nat
  backEnd_mem : backEnd ∈ hpBackEnds
  bus_mem : bus ∈ validBuses
  model_nonblank : ∀ c ∈ model, nonblank c = true
  value_nonblank : ∀ c ∈ value, nonblank c = true
  value_plain : '&' ∉ value ∧ '?' ∉ value
  quad : key = .ip → IsQuad value
  port_mem : ∀ p ∈ port, 1 ≤ p ∧ p ≤ 9

namespace Components

variable (c : Components)

/-- `&port=` and the port, if there is one. -/
def suffix : List Char :=
  match c.port with
  | none => []
  | some p => ['&', 'p', 'o', 'r', 't', '=', p.digitChar]

def tail : List Char := c.key.text ++ (c.value ++ c.suffix)

def uri : List Char :=
  c.backEnd ++ ':' :: '/' :: (c.bus ++ '/' :: (c.model ++ '?' :: c.tail))

def expected : Parsed where
  backEnd := c.backEnd
  isHp := true
  bus := c.bus
  model := c.model
  serial := if c.key = .serial then c.value else []
  devFile := if c.key = .device then c.value else []
  host := if c.key = .serial ∨ c.key = .device then [] else c.value
  zc := if c.key = .zc then c.value else []
  port := .number (c.port.getD 1)

/-- The name is taken apart into its parts. -/
def ParsesBack : Prop := parseDeviceURI c.uri = .ok c.expected

/-- All keys but an address go on to the end of the name, the port of an address is not looked at,
and for a port the text of a host name is taken. -/
def PortRead : Prop :=
  match c.key with
  | .serial | .device => c.port = none
  | .ip => c.port = none ∨ c.port = some 1
  | .zc => c.port = none ∧ c.value ≠ []
  | .hostname => c.port = none ∧ c.value ≠ [] ∧ c.bus = net ∧
      (int c.value = none ∨ int c.value = some 0 ∨ int c.value = some 1)

end Components

/-- A key, as the pattern knows it behind a `?`. -/
def BeginsKey (s : List Char) : Prop :=
  ∃ (k : Key) (w v : List Char), s = w ++ v ∧ w.map Char.toLower = k.text ∧
    (k = .ip → ∃ q r, v = q ++ r ∧ IsQuad q)

/-- A model in which neither another name nor a key begins. -/
structure PlainModel (model : List Char) : Prop where
  noName : ∀ a b d, model ≠ a ++ ':' :: '/' :: (b ++ '/' :: d)
  noKey : ∀ a b, model = a ++ '?' :: b → ¬ BeginsKey b

/-! ## Texts -/

theorem toLower_eq {c d : Char} (hd : d.isLower = false) (h : c.toLower = d) : c = d := by
  subst h
  by_cases hc : c.val ≥ 'A'.val ∧ c.val ≤ 'Z'.val
  · have hval : c.toLower.val = c.val + ('a'.val - 'A'.val) := by rw [Char.toLower, dif_pos hc]
    have hn : c.toLower.val.toNat = (c.val.toNat + 32) % 2 ^ 32 := by
      rw [hval, UInt32.toNat_add]
      rfl
    obtain ⟨hlow, hhigh⟩ := hc
    have hlow : 65 ≤ c.val.toNat := hlow
    have hhigh : c.val.toNat ≤ 90 := hhigh
    rw [Char.isLower, Bool.and_eq_false_iff, decide_eq_false_iff_not, decide_eq_false_iff_not] at hd
    have hd : ¬ 97 ≤ c.toLower.val.toNat ∨ ¬ c.toLower.val.toNat ≤ 122 := hd
    lia
  · rw [Char.toLower, dif_neg hc]

theorem mark_eq {w' w : List Char} (hw : ∀ c ∈ w, c.isLower = false)
    (h : w'.map Char.toLower = w) : w' = w := by
  induction w' generalizing w with
  | nil => exact h
  | cons c w' ih =>
    subst h
    obtain ⟨hc, hrest⟩ := List.forall_mem_cons.mp hw
    rw [List.map_cons, ← ih hrest rfl, ← toLower_eq hc rfl]

theorem of_append_eq {α : Type} {l r a b : List α} {c : α} (hc : c ∉ l)
    (h : a ++ c :: b = l ++ r) : ∃ d, a = l ++ d ∧ d ++ c :: b = r := by
  rcases List.append_eq_append_iff.mp h with ⟨d, rfl, hd⟩ | ⟨d, rfl, hd⟩
  · cases d with
    | nil => exact ⟨[], by simp, by simpa using hd⟩
    | cons e d =>
      rw [List.cons_append, List.cons.injEq] at hd
      exact absurd (by simp [hd.1]) hc
  · exact ⟨d, rfl, hd.symm⟩

theorem of_last_eq {α : Type} {p z m t : List α} {c : α} (hc : c ∉ t)
    (h : p ++ c :: z = m ++ c :: t) : ∃ e, m = p ++ e := by
  rcases List.append_eq_append_iff.mp h with ⟨d, rfl, -⟩ | ⟨d, rfl, hd⟩
  · exact ⟨d, rfl⟩
  · cases d with
    | nil => exact ⟨[], by simp⟩
    | cons e d =>
      rw [List.cons_append, List.cons.injEq] at hd
      exact absurd (by simp [hd.2]) hc

theorem IsNumber.notMem {a : List Char} (h : IsNumber a) {c : Char} (hc : c.isDigit = false) :
    c ∉ a := by
  intro hmem
  rw [h.1 c hmem] at hc
  cases hc

theorem IsQuad.notMem {q : List Char} (h : IsQuad q) : '?' ∉ q := by
  obtain ⟨ha, hb, hc, hd⟩ := h
  simp [ha.notMem, hb.notMem, hc.notMem, hd.notMem]

theorem Key.notMem_text (k : Key) {w : List Char} (h : w.map Char.toLower = k.text) : '?' ∉ w := by
  intro hmem
  have hlower : '?' ∈ w.map Char.toLower := List.mem_map_of_mem (f := Char.toLower) hmem
  rw [h] at hlower
  cases k <;> revert hlower <;> decide

/-! ## Keys -/

def Key.matcher : Key → Matcher Char Groups
  | .serial => serialKey
  | .device => deviceKey
  | .ip => ipKey
  | .zc => zcKey
  | .hostname => hostnameKey

def Key.Value (v : List Char) : Key → Prop
  | .serial | .device => True
  | .ip => ∃ q r, v = q ++ r ∧ IsQuad q
  | .zc | .hostname => ∃ x r, v = x :: r ∧ nonblank x = true

theorem mem_mark {β : Type} {d : Char} (hd : d.isLower = false) (hd' : d.toLower = d)
    {u : Unit → Matcher Char β} {r : β × List Char} {s : List Char} :
    r ∈ (word [d] >>= u) s ↔ ∃ t, s = d :: t ∧ r ∈ u () t := by
  rw [word, mem_literal_bind]
  constructor
  · rintro ⟨w', t, rfl, hw, hr⟩
    rw [mark_eq (List.forall_mem_singleton.mpr hd) hw]
    exact ⟨t, rfl, hr⟩
  · rintro ⟨t, rfl, hr⟩
    exact ⟨[d], t, rfl, by rw [List.map_cons, List.map_nil, hd'], hr⟩

theorem exists_mem_address {v : List Char} :
    (∃ r, r ∈ address v) ↔ ∃ q r, v = q ++ r ∧ IsQuad q := by
  have hdot : '.'.isLower = false := rfl
  simp only [address, number, mem_greedy_bind, mem_mark hdot rfl, mem_pure, Prod.exists]
  constructor
  · rintro ⟨_, _, a, _, rfl, ha, _, rfl, b, _, rfl, hb, _, rfl, c, _, rfl, hc, _, rfl, d, _, rfl,
      hd, e, t, rfl, -, -⟩
    exact ⟨_, e ++ t, by simp, ⟨ha, hb, hc, hd⟩⟩
  · rintro ⟨_, r, rfl, ⟨ha, hb, hc, hd⟩⟩
    rename_i a b c d
    refine ⟨_, r, a, '.' :: (b ++ '.' :: (c ++ '.' :: (d ++ r))), by simp, ha, _, rfl,
      b, _, rfl, hb, _, rfl, c, _, rfl, hc, _, rfl, d, _, rfl, hd, [], r, rfl, ⟨by simp, rfl⟩, rfl, rfl⟩

theorem exists_mem_valueKey {w s : List Char} {k : Nat → Bool} {groups : List Char → Groups} :
    (∃ r, r ∈ valueKey w k groups s) ↔ ∃ w' v, s = w' ++ v ∧ w'.map Char.toLower = w ∧
      ∃ a b, v = a ++ b ∧ Run nonblank k a := by
  simp only [valueKey, word, mem_literal_bind, mem_greedy_bind]
  constructor
  · rintro ⟨r, w', v, rfl, hw, a, b, rfl, ha, -⟩
    exact ⟨w', _, rfl, hw, a, b, rfl, ha⟩
  · rintro ⟨w', v, rfl, hw, a, b, rfl, ha⟩
    exact ⟨_, w', _, rfl, hw, a, b, rfl, ha, List.mem_singleton_self _⟩

theorem exists_run_star {v : List Char} : ∃ a b, v = a ++ b ∧ Run nonblank star a :=
  ⟨[], v, rfl, by simp, rfl⟩

theorem exists_run_plus {v : List Char} :
    (∃ a b, v = a ++ b ∧ Run nonblank plus a) ↔ ∃ x r, v = x :: r ∧ nonblank x = true := by
  constructor
  · rintro ⟨a, b, rfl, hall, hpos⟩
    cases a with
    | nil => cases hpos
    | cons x a => exact ⟨x, a ++ b, rfl, hall x (List.mem_cons_self ..)⟩
  · rintro ⟨x, r, rfl, hx⟩
    exact ⟨[x], r, rfl, List.forall_mem_singleton.mpr hx, rfl⟩

theorem exists_mem_matcher (k : Key) {s : List Char} : (∃ r, r ∈ k.matcher s) ↔
    ∃ w v, s = w ++ v ∧ w.map Char.toLower = k.text ∧ k.Value v := by
  cases k with
  | serial => simp only [Key.matcher, serialKey, exists_mem_valueKey, exists_run_star]; rfl
  | device => simp only [Key.matcher, deviceKey, exists_mem_valueKey, exists_run_star]; rfl
  | ip =>
    simp only [Key.matcher, ipKey, word, mem_literal_bind, Key.Value]
    constructor
    · rintro ⟨r, w, v, rfl, hw, hr⟩
      obtain ⟨q, t, hmem, -⟩ := mem_bind.mp hr
      exact ⟨w, v, rfl, hw, exists_mem_address.mp ⟨_, hmem⟩⟩
    · rintro ⟨w, v, rfl, hw, h⟩
      obtain ⟨⟨q, t⟩, hmem⟩ := exists_mem_address.mpr h
      exact ⟨_, w, v, rfl, hw, mem_bind.mpr ⟨q, t, hmem, List.mem_singleton_self _⟩⟩
  | zc => simp only [Key.matcher, zcKey, exists_mem_valueKey, exists_run_plus]; rfl
  | hostname => simp only [Key.matcher, hostnameKey, exists_mem_valueKey, exists_run_plus]; rfl

theorem mem_keys {r : Groups × List Char} {s : List Char} :
    r ∈ keys s ↔ ∃ k : Key, r ∈ k.matcher s := by
  simp only [keys, mem_orElse]
  constructor
  · rintro (h | h | h | h | h)
    exacts [⟨.serial, h⟩, ⟨.device, h⟩, ⟨.ip, h⟩, ⟨.zc, h⟩, ⟨.hostname, h⟩]
  · rintro ⟨k, h⟩
    cases k with
    | serial => exact .inl h
    | device => exact .inr (.inl h)
    | ip => exact .inr (.inr (.inl h))
    | zc => exact .inr (.inr (.inr (.inl h)))
    | hostname => exact .inr (.inr (.inr (.inr h)))

theorem beginsKey_iff {b t : List Char} (hb : ∀ c ∈ b, nonblank c = true) :
    (∃ r, r ∈ keys (b ++ '?' :: t)) ↔ BeginsKey b := by
  simp only [mem_keys]
  rw [exists_comm]
  simp only [exists_mem_matcher]
  constructor
  · rintro ⟨k, w, v, heq, hw, hvalue⟩
    obtain ⟨e, rfl, rfl⟩ := of_append_eq (k.notMem_text hw) heq
    refine ⟨k, w, e, rfl, hw, ?_⟩
    rintro rfl
    obtain ⟨q, r, hq, hquad⟩ := hvalue
    obtain ⟨d, rfl, -⟩ := of_append_eq hquad.notMem hq
    exact ⟨q, d, rfl, hquad⟩
  · rintro ⟨k, w, v, rfl, hw, hip⟩
    refine ⟨k, w, v ++ '?' :: t, List.append_assoc .., hw, ?_⟩
    have hnext : ∃ x r, v ++ '?' :: t = x :: r ∧ nonblank x = true := by
      cases v with
      | nil => exact ⟨'?', t, rfl, rfl⟩
      | cons x v => exact ⟨x, v ++ '?' :: t, rfl, hb x (by simp)⟩
    cases k with
    | serial => trivial
    | device => trivial
    | ip =>
      obtain ⟨q, r, rfl, hquad⟩ := hip rfl
      exact ⟨q, r ++ '?' :: t, List.append_assoc .., hquad⟩
    | zc => exact hnext
    | hostname => exact hnext

/-! ## The key of a name -/

def Components.taken (c : Components) : List Char :=
  if c.key = .ip then c.value else c.value ++ c.suffix

def Key.groups (v : List Char) : Key → Groups
  | .serial => [some v, none, none, none, none]
  | .device => [none, some v, none, none, none]
  | .ip => [none, none, some v, none, none]
  | .zc => [none, none, none, some v, none]
  | .hostname => [none, none, none, none, some v]

def Key.count : Key → Nat → Bool
  | .serial | .device | .ip => star
  | .zc | .hostname => plus

def Components.HasValue (c : Components) : Prop := c.key.count c.taken.length = true

theorem Key.lower_text (k : Key) : k.text.map Char.toLower = k.text := by
  cases k <;> rfl

theorem Key.matcher_eq {k : Key} (h : k ≠ .ip) :
    k.matcher = valueKey k.text k.count fun v => k.groups v := by
  cases k with
  | ip => exact absurd rfl h
  | _ => rfl

theorem first_valueKey {w v : List Char} {k : Nat → Bool} {groups : List Char → Groups}
    (hw : w.map Char.toLower = w) (hv : Run nonblank k v) :
    first (valueKey w k groups) (w ++ v) = some (groups v, []) := by
  rw [valueKey, word, first_literal_append hw]
  have hstop := first_greedy_stop (g := fun v => (pure (groups v) : Matcher Char Groups)) (b := []) hv
    (fun c hc => nomatch hc) (first_pure _ _)
  rwa [List.append_nil] at hstop

theorem first_mark {β : Type} {d : Char} (hd : d.toLower = d) {u : Unit → Matcher Char β}
    {t : List Char} : first (word [d] >>= u) (d :: t) = first (u ()) t := by
  have hmark : [d].map Char.toLower = [d] := by rw [List.map_cons, hd, List.map_nil]
  exact first_literal_append hmark

theorem first_number {β : Type} {a t : List Char} {x : Char} {g : List Char → Matcher Char β}
    {r : β × List Char} (ha : IsNumber a) (hx : x.isDigit = false)
    (h : first (g a) (x :: t) = some r) : first (number >>= g) (a ++ x :: t) = some r :=
  first_greedy_stop ha (fun c hc => by cases hc; exact hx) h

theorem first_address {q s : List Char} (hq : IsQuad q) (hs : ∀ c ∈ s.head?, c = '&') :
    first address (q ++ s) = some (q, s) := by
  obtain ⟨ha, hb, hc, hd⟩ := hq
  rename_i a b c d
  simp only [List.append_assoc, List.cons_append]
  rw [address]
  refine first_number ha rfl ?_
  rw [first_mark rfl]
  refine first_number hb rfl ?_
  rw [first_mark rfl]
  refine first_number hc rfl ?_
  rw [first_mark rfl]
  refine first_greedy_stop hd (fun x hx => by rw [hs x hx]; rfl) ?_
  have hend := first_greedy_stop (p := fun c => c ≠ '&') (k := star) (a := []) (b := s)
    (g := fun e => pure (a ++ '.' :: (b ++ '.' :: (c ++ '.' :: (d ++ e))))) ⟨by simp, rfl⟩
    (fun x hx => by simp [hs x hx]) (first_pure _ _)
  rw [List.append_nil] at hend
  exact hend

theorem first_matcher_of_ne {k k' : Key} (h : k ≠ k') (v : List Char) :
    first k.matcher (k'.text ++ v) = none := by
  cases k <;> cases k' <;>
    first
      | exact absurd rfl h
      | exact first_literal_cons_of_ne (by decide)

theorem first_keys_text (k : Key) (v : List Char) :
    first keys (k.text ++ v) = first k.matcher (k.text ++ v) := by
  have halternatives : ∀ s, first keys s = (first Key.serial.matcher s).or
      ((first Key.device.matcher s).or ((first Key.ip.matcher s).or
        ((first Key.zc.matcher s).or (first Key.hostname.matcher s)))) := fun s => by
    simp only [keys, first_orElse]
    rfl
  rw [halternatives]
  cases k <;> simp [first_matcher_of_ne]

theorem nonblank_digitChar : ∀ p < 10, nonblank (Nat.digitChar p) = true ∧ Nat.digitChar p ≠ '?' := by
  decide

namespace Components

variable {c : Components}

theorem suffix_nonblank : ∀ x ∈ c.suffix, nonblank x = true ∧ x ≠ '?' := by
  intro x hx
  rw [suffix] at hx
  split at hx
  · cases hx
  · rename_i p hp
    have hdigit := nonblank_digitChar p (Nat.lt_succ_of_le (c.port_mem p hp).2)
    simp only [List.mem_cons, List.not_mem_nil, or_false] at hx
    rcases hx with rfl | rfl | rfl | rfl | rfl | rfl | rfl
    all_goals first | exact hdigit | decide

theorem head_suffix : ∀ x ∈ c.suffix.head?, x = '&' := by
  intro x hx
  rw [suffix] at hx
  split at hx
  · cases hx
  · cases hx
    rfl

theorem notMem_tail : '?' ∉ c.tail := by
  have htext : '?' ∉ c.key.text := by cases c.key <;> decide
  have hsuffix : '?' ∉ c.suffix := fun h => (suffix_nonblank _ h).2 rfl
  simp [tail, htext, hsuffix, c.value_plain.2]

theorem value_suffix_nonblank : ∀ x ∈ c.value ++ c.suffix, nonblank x = true :=
  List.forall_mem_append.mpr ⟨c.value_nonblank, fun x hx => (suffix_nonblank x hx).1⟩

/-- **The key of a name**, and what is taken for its value. -/
theorem first_keys (h : c.HasValue) :
    ∃ t, first keys c.tail = some (c.key.groups c.taken, t) := by
  rw [tail, first_keys_text]
  by_cases hkey : c.key = .ip
  · have htaken : c.taken = c.value := if_pos hkey
    have hip : first Key.ip.matcher (Key.ip.text ++ (c.value ++ c.suffix))
        = first (address >>= fun v => pure [none, none, some v, none, none]) (c.value ++ c.suffix) :=
      first_literal_append (Key.lower_text .ip)
    refine ⟨c.suffix, ?_⟩
    rw [hkey, hip, first_bind_pure, first_address (c.quad hkey) head_suffix, htaken]
    rfl
  · have htaken : c.taken = c.value ++ c.suffix := if_neg hkey
    refine ⟨[], ?_⟩
    rw [Key.matcher_eq hkey, htaken]
    exact first_valueKey c.key.lower_text ⟨value_suffix_nonblank, htaken ▸ h⟩

theorem first_keys_none (h : ¬ c.HasValue) : first keys c.tail = none := by
  have hkey : c.key = .zc ∨ c.key = .hostname := by
    cases hkey : c.key with
    | zc => exact .inl rfl
    | hostname => exact .inr rfl
    | _ => exact absurd (by rw [HasValue, hkey]; rfl) h
  have hip : c.key ≠ .ip := by rcases hkey with hkey | hkey <;> rw [hkey] <;> decide
  have hnil : c.value ++ c.suffix = [] := by
    rcases hkey with hkey | hkey <;>
      simpa [HasValue, hkey, Key.count, plus, taken, List.length_pos_iff] using h
  rw [tail, first_keys_text, hnil, Key.matcher_eq hip]
  refine first_eq_none.mpr fun r hr => ?_
  obtain ⟨w, v, heq, hw, a, b, rfl, hrun⟩ := exists_mem_valueKey.mp ⟨r, hr⟩
  have hsame : w.length = c.key.text.length := by rw [← hw, List.length_map]
  have hlength := congrArg List.length heq
  simp only [List.length_append, List.length_nil] at hlength
  have ha : a = [] := List.eq_nil_of_length_eq_zero (by lia)
  rw [ha] at hrun
  rcases hkey with hkey | hkey <;> rw [hkey] at hrun <;> cases hrun.2

end Components

theorem port_total (s : List Char) : first port s ≠ none := by
  rw [port, first_orElse, first_pure]
  cases first portKey s <;> simp

theorem keyGroups_total (k : Groups) (s : List Char) :
    first (port >>= fun p => pure (k ++ [p])) s ≠ none := by
  rw [first_bind_pure]
  exact fun h => port_total s (Option.map_eq_none_iff.mp h)

theorem exists_mem_keyGroups {s : List Char} :
    (∃ r, r ∈ keyGroups s) ↔ ∃ r, r ∈ keys s :=
  exists_mem_bind keyGroups_total

/-! ## Stages of the pattern -/

section Stages

variable {p : Char → Bool} {d : Char} {m : Matcher Char Groups} {r : Groups × List Char}
  {s : List Char}

theorem mem_stage (hd : d.isLower = false) (hd' : d.toLower = d) :
    r ∈ (reluctant p star >>= fun a => word [d] >>= fun _ => m >>= fun k =>
      (pure (some a :: k) : Matcher Char Groups)) s ↔
    ∃ a b, s = a ++ d :: b ∧ (∀ x ∈ a, p x = true) ∧ ∃ r' ∈ m b, r = (some a :: r'.1, r'.2) := by
  rw [mem_reluctant_bind]
  simp only [mem_mark hd hd', mem_bind]
  constructor
  · rintro ⟨a, _, rfl, hrun, t, rfl, k, t', hmem, hr⟩
    exact ⟨a, t, rfl, hrun.1, ⟨k, t'⟩, hmem, List.mem_singleton.mp hr⟩
  · rintro ⟨a, b, rfl, hall, ⟨k, t'⟩, hmem, rfl⟩
    exact ⟨a, _, rfl, ⟨hall, rfl⟩, b, rfl, k, t', hmem, List.mem_singleton_self _⟩

theorem first_mark_eq_none (hd : d.isLower = false) (hd' : d.toLower = d) (a : List Char) :
    first (word [d] >>= fun _ => m >>= fun k => (pure (some a :: k) : Matcher Char Groups)) s = none
      ↔ ∀ b, s = d :: b → first m b = none := by
  simp only [first_eq_none, mem_mark hd hd', not_exists, not_and]
  constructor
  · rintro h b rfl ⟨k, t⟩ hr
    exact h _ b rfl (mem_bind.mpr ⟨k, t, hr, List.mem_singleton_self _⟩)
  · rintro h r b rfl hr
    obtain ⟨k, t, hmem, -⟩ := mem_bind.mp hr
    exact h b rfl _ hmem

theorem first_stage (hd : d.isLower = false) (hd' : d.toLower = d) :
    first (reluctant p star >>= fun a => word [d] >>= fun _ => m >>= fun k =>
      (pure (some a :: k) : Matcher Char Groups)) s = some r ↔
    ∃ a b, s = a ++ d :: b ∧ (∀ x ∈ a, p x = true) ∧
      (∃ r', first m b = some r' ∧ r = (some a :: r'.1, r'.2)) ∧
      ∀ a' b', s = a' ++ d :: b' → a'.length < a.length → first m b' = none := by
  rw [first_reluctant_eq_some]
  constructor
  · rintro ⟨a, b, rfl, hrun, hfirst, hshorter⟩
    obtain ⟨b, rfl, -⟩ := (mem_mark hd hd').mp (mem_of_first hfirst)
    rw [first_mark hd', first_bind_pure, Option.map_eq_some_iff] at hfirst
    obtain ⟨r', hr', rfl⟩ := hfirst
    refine ⟨a, b, rfl, hrun.1, ⟨r', hr', rfl⟩, ?_⟩
    intro a' b' heq hlt
    -- what is shorter is a part of the run
    obtain ⟨e, rfl⟩ := List.prefix_of_prefix_length_le ⟨_, heq.symm⟩ ⟨_, rfl⟩ (Nat.le_of_lt hlt)
    have hrun' : Run p star a' := ⟨fun x hx => hrun.1 x (List.mem_append_left _ hx), rfl⟩
    exact (first_mark_eq_none hd hd' a').mp (hshorter a' _ heq hrun' hlt) b' rfl
  · rintro ⟨a, b, rfl, hall, ⟨r', hr', rfl⟩, hshorter⟩
    refine ⟨a, d :: b, rfl, ⟨hall, rfl⟩, ?_, ?_⟩
    · rw [first_mark hd', first_bind_pure, hr']
      rfl
    · intro a' b' heq _ hlt
      refine (first_mark_eq_none hd hd' a').mpr ?_
      rintro b'' rfl
      exact hshorter a' b'' heq hlt

end Stages

/-- **The pattern**: the back end goes as far as it can. -/
theorem first_patDeviceuri {r : Groups × List Char} {s : List Char} :
    first patDeviceuri s = some r ↔
    ∃ a b, s = a ++ ':' :: '/' :: b ∧ (∀ x ∈ a, dot x = true) ∧
      (∃ r', first busGroups b = some r' ∧ r = (some a :: r'.1, r'.2)) ∧
      ∀ a' b', s = a' ++ ':' :: '/' :: b' → (∀ x ∈ a', dot x = true) → a.length < a'.length →
        first busGroups b' = none := by
  have hmark : [':', '/'].map Char.toLower = [':', '/'] := rfl
  have hstage : ∀ (a : List Char) {b : List Char} {q : Groups × List Char},
      first (word [':', '/'] >>= fun _ => busGroups >>= fun k => pure (some a :: k)) b = some q ↔
        ∃ t r', b = ':' :: '/' :: t ∧ first busGroups t = some r' ∧ q = (some a :: r'.1, r'.2) := by
    intro a b q
    rw [word, first_literal_eq_some]
    constructor
    · rintro ⟨w, t, rfl, hw, hfirst⟩
      rw [mark_eq (List.forall_mem_cons.mpr ⟨rfl, List.forall_mem_singleton.mpr rfl⟩) hw]
      rw [first_bind_pure, Option.map_eq_some_iff] at hfirst
      obtain ⟨r', hr', rfl⟩ := hfirst
      exact ⟨t, r', rfl, hr', rfl⟩
    · rintro ⟨t, r', rfl, hr', rfl⟩
      exact ⟨[':', '/'], t, rfl, hmark, by rw [first_bind_pure, hr']; rfl⟩
  rw [patDeviceuri, first_greedy_eq_some]
  constructor
  · rintro ⟨a, b, rfl, hrun, hfirst, hlonger⟩
    obtain ⟨t, r', rfl, hr', rfl⟩ := (hstage a).mp hfirst
    refine ⟨a, t, rfl, hrun.1, ⟨r', hr', rfl⟩, ?_⟩
    intro a' b' heq hall hlt
    refine Option.eq_none_iff_forall_ne_some.mpr fun q hq => ?_
    have hsome := (hstage a').mpr ⟨b', q, rfl, hq, rfl⟩
    rw [hlonger a' _ heq ⟨hall, rfl⟩ hlt] at hsome
    cases hsome
  · rintro ⟨a, b, rfl, hall, ⟨r', hr', rfl⟩, hlonger⟩
    refine ⟨a, _, rfl, ⟨hall, rfl⟩, (hstage a).mpr ⟨b, r', rfl, hr', rfl⟩, ?_⟩
    intro a' b' heq hrun hlt
    refine Option.eq_none_iff_forall_ne_some.mpr fun q hq => ?_
    obtain ⟨t, r'', rfl, hr'', -⟩ := (hstage a').mp hq
    rw [hlonger a' t heq hrun.1 hlt] at hr''
    cases hr''

/-! ## The pattern on a name -/

theorem backEnds_plain : ∀ b ∈ hpBackEnds, ∀ x ∈ b, dot x = true ∧ x.toLower = x := by
  have hall : (hpBackEnds.all fun b => b.all fun x => dot x && decide (x.toLower = x)) = true := by
    decide
  simpa only [List.all_eq_true, Bool.and_eq_true, decide_eq_true_eq] using hall

theorem buses_plain : ∀ b ∈ validBuses, ∀ x ∈ b,
    dot x = true ∧ x.toLower = x ∧ x ≠ ':' ∧ x ≠ '/' := by
  have hall : (validBuses.all fun b => b.all fun x =>
      dot x && (decide (x.toLower = x) && (decide (x ≠ ':') && decide (x ≠ '/')))) = true := by
    decide
  simpa only [List.all_eq_true, Bool.and_eq_true, decide_eq_true_eq] using hall

theorem dot_of_nonblank {x : Char} (h : nonblank x = true) : dot x = true := by
  by_cases hx : x = '\n'
  · rw [hx] at h
    cases h
  · simp [dot, hx]

namespace Components

variable {c : Components} {k : Groups} {t : List Char}

theorem notMem_bus : ':' ∉ c.bus ∧ '/' ∉ c.bus :=
  ⟨fun h => (buses_plain _ c.bus_mem _ h).2.2.1 rfl, fun h => (buses_plain _ c.bus_mem _ h).2.2.2 rfl⟩

theorem no_key_before (h : PlainModel c.model) {a b : List Char}
    (heq : c.model ++ '?' :: c.tail = a ++ '?' :: b) (hlt : a.length < c.model.length) :
    first keyGroups b = none := by
  obtain ⟨e, he⟩ := of_last_eq notMem_tail heq.symm
  rw [he, List.append_assoc, List.append_cancel_left_eq] at heq
  cases e with
  | nil => simp [he] at hlt
  | cons x e =>
    obtain ⟨rfl, rfl⟩ := List.cons.inj heq
    refine first_eq_none.mpr fun r hr => h.noKey a e he ?_
    have hnonblank : ∀ x ∈ e, nonblank x = true := fun x hx =>
      c.model_nonblank x (by rw [he]; simp [hx])
    exact (beginsKey_iff hnonblank).mp (exists_mem_keyGroups.mp ⟨r, hr⟩)

theorem no_name_inside (h : PlainModel c.model) {a b : List Char}
    (heq : c.uri = a ++ ':' :: '/' :: b) (hlt : c.backEnd.length < a.length) :
    first busGroups b = none := by
  refine first_eq_none.mpr fun r hr => ?_
  obtain ⟨x, _, rfl, -, r', hr', -⟩ := (mem_stage rfl rfl).mp hr
  obtain ⟨y, z, rfl, -, -⟩ := (mem_stage rfl rfl).mp hr'
  obtain ⟨d, rfl⟩ := List.prefix_of_prefix_length_le ⟨_, rfl⟩ ⟨_, heq.symm⟩ (Nat.le_of_lt hlt)
  rw [uri, List.append_assoc, List.append_cancel_left_eq] at heq
  -- the longer one goes on behind the bus
  obtain ⟨d, rfl⟩ : ∃ e, d = ':' :: '/' :: e := by
    cases d with
    | nil => simp at hlt
    | cons u d =>
      cases d with
      | nil => simp at heq
      | cons v d => exact ⟨d, by simp at heq; rw [heq.1, heq.2.1]⟩
  simp only [List.cons_append, List.cons.injEq, true_and] at heq
  obtain ⟨d, rfl, hd⟩ := of_append_eq notMem_bus.1 heq.symm
  obtain ⟨d, rfl⟩ : ∃ e, d = '/' :: e := by
    cases d with
    | nil => simp at hd
    | cons u d => exact ⟨d, by simp at hd; rw [hd.1]⟩
  simp only [List.cons_append, List.cons.injEq, true_and] at hd
  -- and has all its marks in the model
  have hlast : (d ++ ':' :: '/' :: (x ++ '/' :: y)) ++ '?' :: z = c.model ++ '?' :: c.tail := by
    rw [← hd]
    simp
  obtain ⟨e, he⟩ := of_last_eq notMem_tail hlast
  exact h.noName d x (y ++ e) (by rw [he]; simp)

/-- **The pattern on a name** with a plain model. -/
theorem first_uri (h : PlainModel c.model) (hk : first keyGroups c.tail = some (k, t)) :
    first patDeviceuri c.uri = some (some c.backEnd :: some c.bus :: some c.model :: k, t) := by
  have hmodel : first modelGroups (c.model ++ '?' :: c.tail) = some (some c.model :: k, t) :=
    (first_stage rfl rfl).mpr ⟨_, _, rfl, c.model_nonblank, ⟨_, hk, rfl⟩,
      fun a b heq hlt => no_key_before h heq hlt⟩
  have hbus : first busGroups (c.bus ++ '/' :: (c.model ++ '?' :: c.tail))
      = some (some c.bus :: some c.model :: k, t) := by
    refine (first_stage rfl rfl).mpr ⟨_, _, rfl, fun x hx => (buses_plain _ c.bus_mem x hx).1,
      ⟨_, hmodel, rfl⟩, ?_⟩
    intro a b heq hlt
    obtain ⟨d, rfl, -⟩ := of_append_eq notMem_bus.2 heq.symm
    rw [List.length_append] at hlt
    omega
  exact first_patDeviceuri.mpr ⟨_, _, rfl, fun x hx => (backEnds_plain _ c.backEnd_mem x hx).1,
    ⟨_, hbus, rfl⟩, fun a b heq _ hlt => no_name_inside h heq hlt⟩

/-- **The pattern finds the model** of a name only if it is plain. -/
theorem of_first_uri {g₁ g₂ : List Char}
    (h : first patDeviceuri c.uri = some (some g₁ :: some g₂ :: some c.model :: k, t))
    (h₁ : g₁.length = c.backEnd.length) (h₂ : g₂.length = c.bus.length) :
    PlainModel c.model ∧ first keyGroups c.tail = some (k, t) := by
  obtain ⟨_, b, huri, -, ⟨⟨k₁, t₁⟩, hbus, hr₁⟩, hlonger⟩ := first_patDeviceuri.mp h
  simp only [Prod.mk.injEq, List.cons.injEq, Option.some.injEq] at hr₁
  obtain ⟨⟨rfl, rfl⟩, rfl⟩ := hr₁
  obtain ⟨rfl, hb⟩ := List.append_inj huri.symm h₁
  simp only [List.cons.injEq, true_and] at hb
  subst hb
  obtain ⟨_, b, hrest, -, ⟨⟨k₂, t₂⟩, hmodel, hr₂⟩, -⟩ := (first_stage rfl rfl).mp hbus
  simp only [Prod.mk.injEq, List.cons.injEq, Option.some.injEq] at hr₂
  obtain ⟨⟨rfl, rfl⟩, rfl⟩ := hr₂
  obtain ⟨rfl, hb⟩ := List.append_inj hrest.symm h₂
  simp only [List.cons.injEq, true_and] at hb
  subst hb
  obtain ⟨_, b, hrest, -, ⟨⟨k₃, t₃⟩, hkey, hr₃⟩, hshorter⟩ := (first_stage rfl rfl).mp hmodel
  simp only [Prod.mk.injEq, List.cons.injEq, Option.some.injEq] at hr₃
  obtain ⟨⟨rfl, rfl⟩, rfl⟩ := hr₃
  obtain ⟨-, hb⟩ := List.append_inj hrest.symm rfl
  simp only [List.cons.injEq, true_and] at hb
  subst hb
  refine ⟨⟨?_, ?_⟩, hkey⟩
  · intro a b d hname
    have hdot : ∀ x ∈ c.model, dot x = true := fun x hx => dot_of_nonblank (c.model_nonblank x hx)
    have hnone := hlonger (c.backEnd ++ ':' :: '/' :: (c.bus ++ '/' :: a))
      (b ++ '/' :: (d ++ '?' :: c.tail)) (by rw [huri, hname]; simp) ?_ (by simp)
    · refine first_eq_none.mp hnone _ ((mem_stage rfl rfl).mpr ⟨b, _, rfl, ?_, _,
        (mem_stage rfl rfl).mpr ⟨d, _, rfl, ?_, _, mem_of_first hkey, rfl⟩, rfl⟩)
      · exact fun x hx => hdot x (by rw [hname]; simp [hx])
      · exact fun x hx => c.model_nonblank x (by rw [hname]; simp [hx])
    · intro x hx
      simp only [List.mem_append, List.mem_cons] at hx
      rcases hx with hx | rfl | rfl | hx | rfl | hx
      · exact (backEnds_plain _ c.backEnd_mem x hx).1
      · rfl
      · rfl
      · exact (buses_plain _ c.bus_mem x hx).1
      · rfl
      · exact hdot x (by rw [hname]; simp [hx])
  · intro a b hquery hbegins
    have hnonblank : ∀ x ∈ b, nonblank x = true := fun x hx =>
      c.model_nonblank x (by rw [hquery]; simp [hx])
    obtain ⟨r, hr⟩ := exists_mem_keyGroups.mpr ((beginsKey_iff (t := c.tail) hnonblank).mpr hbegins)
    exact first_eq_none.mp (hshorter a _ (by rw [hquery]; simp) (by rw [hquery]; simp)) r hr

end Components

/-! ## Parsing a name -/

theorem patDeviceuri_groups {m : Groups} {t s : List Char}
    (h : first patDeviceuri s = some (m, t)) :
    ∃ g₁ g₂ g₃ k, m = some g₁ :: some g₂ :: some g₃ :: k := by
  obtain ⟨g₁, _, -, -, ⟨r₁, hbus, hr₁⟩, -⟩ := first_patDeviceuri.mp h
  obtain ⟨g₂, _, -, -, ⟨r₂, hmodel, rfl⟩, -⟩ := (first_stage rfl rfl).mp hbus
  obtain ⟨g₃, _, -, -, ⟨r₃, -, rfl⟩, -⟩ := (first_stage rfl rfl).mp hmodel
  exact ⟨g₁, g₂, g₃, r₃.1, congrArg Prod.fst hr₁⟩

theorem of_readGroups {g₁ g₂ g₃ : List Char} {k : Groups} {p : Parsed}
    (h : readGroups (some g₁ :: some g₂ :: some g₃ :: k) = .ok p) :
    p.backEnd = g₁.map Char.toLower ∧ p.bus = g₂.map Char.toLower ∧ p.model = g₃ := by
  rw [readGroups] at h
  simp only at h
  split at h
  · cases h
  · cases h
    exact ⟨rfl, rfl, rfl⟩

namespace Components

variable (c : Components)

/-- What is read if `v` is taken for the value of the key. -/
def read (v : List Char) : Parsed :=
  let port := if c.key = .hostname ∧ v ≠ [] then Port.text v else Port.number 1
  { backEnd := c.backEnd
    isHp := true
    bus := c.bus
    model := c.model
    serial := if c.key = .serial then v else []
    devFile := if c.key = .device then v else []
    host := if c.key = .serial ∨ c.key = .device then [] else v
    zc := if c.key = .zc then v else []
    port := if c.bus = net then .number (netPort port) else port }

theorem map_toLower {l : List Char} (h : ∀ x ∈ l, x.toLower = x) : l.map Char.toLower = l :=
  (List.map_congr_left h).trans (List.map_id' l)

theorem readGroups_groups (v : List Char) (p : Option (List Char)) :
    readGroups (some c.backEnd :: some c.bus :: some c.model :: (c.key.groups v ++ [p]))
      = .ok (c.read v) := by
  have hback : c.backEnd.map Char.toLower = c.backEnd :=
    map_toLower fun x hx => (backEnds_plain _ c.backEnd_mem x hx).2
  have hbus : c.bus.map Char.toLower = c.bus :=
    map_toLower fun x hx => (buses_plain _ c.bus_mem x hx).2.1
  have hmem : ¬ c.bus ∉ validBuses := not_not_intro c.bus_mem
  have hgroup1 : ∀ l, group (some c.backEnd :: l) 1 = c.backEnd := fun _ => rfl
  have hgroup2 : ∀ g l, group (g :: some c.bus :: l) 2 = c.bus := fun _ _ => rfl
  have hgroup3 : ∀ g g' l, group (g :: g' :: some c.model :: l) 3 = c.model := fun _ _ _ => rfl
  simp only [readGroups, hgroup1, hgroup2, hgroup3, hback, hbus, if_neg hmem, c.backEnd_mem, read]
  cases hkey : c.key <;> by_cases hv : v = [] <;> simp [group, Key.groups, hv]

theorem parsesBack_iff_read :
    c.ParsesBack ↔ PlainModel c.model ∧ c.HasValue ∧ c.read c.taken = c.expected := by
  have hkeyGroups : c.HasValue → ∃ p t,
      first keyGroups c.tail = some (c.key.groups c.taken ++ [p], t) := by
    intro hvalue
    obtain ⟨s, hs⟩ := first_keys hvalue
    obtain ⟨⟨p, t⟩, hp⟩ := Option.ne_none_iff_exists'.mp (port_total s)
    refine ⟨p, t, ?_⟩
    rw [keyGroups, first_bind_of_total keyGroups_total, hs, Option.bind_some, first_bind_pure, hp]
    rfl
  rw [ParsesBack, parseDeviceURI]
  constructor
  · intro h
    cases hfirst : first patDeviceuri c.uri with
    | none =>
      rw [hfirst] at h
      cases h
    | some r =>
      obtain ⟨m, t⟩ := r
      rw [hfirst] at h
      dsimp only at h
      obtain ⟨g₁, g₂, g₃, k, rfl⟩ := patDeviceuri_groups hfirst
      obtain ⟨hback, hbus, hmodel⟩ := of_readGroups h
      have hmodel : c.model = g₃ := hmodel
      subst hmodel
      obtain ⟨hplain, hkey⟩ := of_first_uri hfirst
        (by rw [show c.backEnd = _ from hback, List.length_map])
        (by rw [show c.bus = _ from hbus, List.length_map])
      have hvalue : c.HasValue := by
        by_contra hno
        obtain ⟨r, hr⟩ := exists_mem_keyGroups.mp ⟨_, mem_of_first hkey⟩
        exact first_eq_none.mp (first_keys_none hno) r hr
      obtain ⟨p, t', hgroups⟩ := hkeyGroups hvalue
      rw [first_uri hplain hgroups] at hfirst
      obtain ⟨hm, -⟩ := Prod.mk.inj (Option.some.inj hfirst)
      rw [← hm, readGroups_groups] at h
      exact ⟨hplain, hvalue, Except.ok.inj h⟩
  · rintro ⟨hplain, hvalue, hread⟩
    obtain ⟨p, t, hgroups⟩ := hkeyGroups hvalue
    rw [first_uri hplain hgroups]
    exact (readGroups_groups c _ p).trans (congrArg _ hread)

theorem suffix_eq_nil_iff : c.suffix = [] ↔ c.port = none := by
  cases hport : c.port <;> simp [suffix, hport]

theorem netPort_eq_one (s : List Char) :
    netPort (.text s) = 1 ↔ int s = none ∨ int s = some 0 ∨ int s = some 1 := by
  cases h : int s with
  | none => simp [netPort, h]
  | some n => by_cases hn : n = 0 <;> simp [netPort, h, hn]

theorem read_eq_iff : c.HasValue ∧ c.read c.taken = c.expected ↔ c.PortRead := by
  have hone : netPort (.number 1) = 1 := rfl
  rw [read, expected, HasValue, PortRead, taken]
  cases hport : c.port with
  | none =>
    have hnil : c.suffix = [] := c.suffix_eq_nil_iff.mpr hport
    cases hkey : c.key with
    | serial => simp [Key.count, star, hone, hnil]
    | device => simp [Key.count, star, hone, hnil]
    | ip => simp [Key.count, star, hone]
    | zc => simp [Key.count, plus, hone, hnil, List.length_pos_iff]
    | hostname =>
      by_cases hvalue : c.value = []
      · simp [Key.count, plus, hnil, hvalue]
      · by_cases hbus : c.bus = net <;>
          simp [Key.count, plus, hnil, hvalue, hbus, netPort_eq_one, List.length_pos_iff]
  | some p =>
    have hsome : c.suffix ≠ [] := fun h => by
      rw [c.suffix_eq_nil_iff.mp h] at hport
      cases hport
    cases hkey : c.key with
    | serial => simp [hsome]
    | device => simp [hsome]
    | ip =>
      have heq : (1 : Int) = p ↔ p = 1 := by lia
      simp [Key.count, star, hone, heq]
    | zc => simp [hsome]
    | hostname => simp [hsome]

end Components

/-- **Device URIs parse back** if the model is plain and the port is one that is read: none, or the
first one of an address; a host name must not be a number over one. -/
theorem parsesBack_iff (c : Components) : c.ParsesBack ↔ PlainModel c.model ∧ c.PortRead := by
  rw [c.parsesBack_iff_read, c.read_eq_iff]

/-- `hp:/net/M?ip=1.2.3.4&port=2`. -/
def secondPort : Components where
  backEnd := ['h', 'p']
  bus := net
  model := ['M']
  key := .ip
  value := ['1', '.', '2', '.', '3', '.', '4']
  port := some 2
  backEnd_mem := .head _
  bus_mem := .tail _ (.head _)
  model_nonblank := List.forall_mem_singleton.mpr rfl
  value_nonblank := by simp [nonblank, isSpace]
  value_plain := by decide
  quad _ :=
    have hdigit (d : Char) (h : d.isDigit = true) : IsNumber [d] :=
      ⟨List.forall_mem_singleton.mpr h, rfl⟩
    .intro (hdigit '1' rfl) (hdigit '2' rfl) (hdigit '3' rfl) (hdigit '4' rfl)
  port_mem p hp := by
    cases hp
    decide

/-- The second port of a print server is taken for the first one. -/
theorem secondPort_not_parsed : ¬ secondPort.ParsesBack := by
  intro h
  have hport := ((secondPort.parsesBack_iff_read).mp h).2.2
  have hone : Port.number 1 = Port.number 2 := congrArg Parsed.port hport
  cases hone

end Hplip.Base
