/-
The values of the variables as strings: `state_get_var` and `state_set_var`
of `barebox-state.c`, with the `strtoul` of the C library on a machine whose
`unsigned long` has 64 bits. `none` results are accesses outside an object.
-/
import DtUtils.State

namespace DtUtils
open Lib

/-! ## Numbers -/

/-- `isspace` -/
def isSpace (c : UInt8) : Bool := c = 32 ∨ (9 ≤ c ∧ c ≤ 13)

/-- The value of a digit in any base up to 16. -/
def digitValue (c : UInt8) : Option Nat :=
  if 48 ≤ c ∧ c ≤ 57 then some (c.toNat - 48)
  else if 97 ≤ c ∧ c ≤ 102 then some (c.toNat - 87)
  else if 65 ≤ c ∧ c ≤ 70 then some (c.toNat - 55)
  else none

def isDigit (base : Nat) (c : UInt8) : Bool := (digitValue c).any (· < base)

/-- `s` begins with `0x` and a hexadecimal digit. -/
def hexPrefix : Bytes → Bool
  | 48 :: x :: d :: _ => (x = 120 ∨ x = 88) ∧ isDigit 16 d
  | _ => false

/-- The base of `strtoul` and where its digits begin. -/
def strtoulBase (base : Nat) (s : Bytes) : Nat × Bytes :=
  if (base = 0 ∨ base = 16) ∧ hexPrefix s then (16, s.drop 2)
  else if base = 0 then (if s.head? = some 48 then 8 else 10, s)
  else (base, s)

/-- `strtoul`: the number, and `*endptr`. -/
def strtoul (s : Bytes) (base : Nat) : Nat × Bytes :=
  let t := s.dropWhile isSpace
  let negative := t.head? = some 45
  let t := if negative ∨ t.head? = some 43 then t.drop 1 else t
  let (base, t) := strtoulBase base t
  let digits := t.takeWhile (isDigit base)
  if digits = [] then (0, s)
  else
    let n := digits.foldl (fun n c => n * base + (digitValue c).getD 0) 0
    let rest := t.drop digits.length
    if 2 ^ 64 ≤ n then (2 ^ 64 - 1, rest)
    else if negative then ((2 ^ 64 - n) % 2 ^ 64, rest)
    else (n, rest)

example : strtoul (cstr " 0x1fz").1 0 = (31, (cstr "z").1) := by decide +kernel
example : (strtoul (cstr "-1").1 0).1 = 2 ^ 64 - 1 := by decide +kernel

/-- The loop of `string_to_ethaddr`: `n` numbers, each with one character
behind it. -/
def ethaddrBytes : Nat → Bytes → Bytes
  | 0, _ => []
  | n + 1, s =>
    let (num, e) := strtoul s 16
    UInt8.ofNat num :: ethaddrBytes n (e.drop 1)

@[simp] theorem ethaddrBytes_length (n : Nat) (s : Bytes) : (ethaddrBytes n s).length = n := by
  induction n generalizing s with
  | zero => rfl
  | succ n ih => rw [ethaddrBytes, List.length_cons, ih]

/-- `string_to_ethaddr` -/
def stringToEthaddr (str : CString) : Except Int Mac :=
  if str.1.length ≠ 17 then .error (-EINVAL)
  else if [2, 5, 8, 11, 14].any fun i => str.1[i]? ≠ some 58 then .error (-EINVAL)
  else .ok ⟨ethaddrBytes 6 str.1, ethaddrBytes_length 6 _⟩

/-- `%u` -/
def decimal (v : UInt32) : CString := cstr (toString v.toNat)

/-- `%02x` -/
def hexByte (b : UInt8) : Bytes := [b / 16, b % 16].map fun d => if d < 10 then 48 + d else 87 + d

/-- `%02x:%02x:%02x:%02x:%02x:%02x` -/
def macString (m : Mac) : CString := CString.of ([58].intercalate (m.1.map hexByte))

/-! ## Get and set -/

/-- `vtype->get` -/
def VarData.get : VarData → Option CString
  | .uint8 v _ => some (decimal v)
  | .uint32 v _ => some (decimal v)
  | .enum32 v _ names => names[v.toNat]?
  | .mac v _ => some (macString v)
  | .string s => some (CString.of s.raw)

/-- `vtype->set`: the value afterwards, and the return value. -/
def VarData.set (d : VarData) (val : CString) : VarData × Int :=
  match d with
  | .uint8 v dflt =>
    let num := (strtoul val.1 0).1
    if 255 < num then (.uint8 v dflt, -ERANGE) else (.uint8 (.ofNat num) dflt, 0)
  | .uint32 _ dflt => (.uint32 (.ofNat (strtoul val.1 0).1) dflt, 0)
  | .enum32 v dflt names =>
    match names.findIdx? (· = val) with
    | none => (.enum32 v dflt names, -EINVAL)
    | some i => (.enum32 (.ofNat i) dflt names, 0)
  | .mac v dflt =>
    match stringToEthaddr val with
    | .error e => (.mac v dflt, e)
    | .ok m => (.mac m dflt, 0)
  | .string s =>
    let (s', ret) := stateStringCopyToRaw s val
    if ret ≠ 0 then (.string s, ret) else (.string { s' with value := some val }, 0)

/-- The object that `get` reads: of a number all 32 bits. -/
def VarData.value : VarData → Bytes
  | .uint8 v _ => leBytes 4 v.toNat
  | .uint32 v _ => leBytes 4 v.toNat
  | .enum32 v _ _ => leBytes 4 v.toNat
  | .mac v _ => v
  | .string s => s.raw

def values (vars : List StateVariable) : List Bytes := vars.map fun sv => sv.data.value

/-- `state_find_var` -/
def stateFindVar (vars : List StateVariable) (name : CString) : Option StateVariable := vars.find? (·.name = name)

/-- `state_get_var`; the inner `none` is `NULL`. -/
def stateGetVar (vars : List StateVariable) (name : CString) : Option (Option CString) :=
  match stateFindVar vars name with
  | none => some none
  | some sv => sv.data.get.map some

/-- `state_set_var`: the variables afterwards, whether the value was set, and
the return value. -/
def stateSetVar (vars : List StateVariable) (name val : CString) : Option (List StateVariable × Bool × Int) :=
  match vars with
  | [] => some ([], false, -ENOENT)
  | sv :: vars =>
    if sv.name = name then
      match sv.data.get with
      | none => none
      | some oldval =>
        if oldval = val then some (sv :: vars, false, 0)
        else
          let (data, ret) := sv.data.set val
          some ({ sv with data := data } :: vars, decide (ret = 0), ret)
    else (stateSetVar vars name val).map fun (vars, set, ret) => (sv :: vars, set, ret)

/-! ## What setting leaves alone -/

/-- A value keeps its size, and is left alone when setting it fails. -/
theorem VarData.set_kept (d : VarData) (val : CString) :
    (d.set val).1.size = d.size ∧ ((d.set val).2 ≠ 0 → (d.set val).1 = d) := by
  cases d with
  | uint8 v dflt =>
    simp only [set]
    split
    · exact ⟨rfl, fun _ => rfl⟩
    · exact ⟨rfl, fun h => absurd rfl h⟩
  | uint32 v dflt => exact ⟨rfl, fun h => absurd rfl h⟩
  | enum32 v dflt names =>
    simp only [set]
    split
    · exact ⟨rfl, fun _ => rfl⟩
    · exact ⟨rfl, fun h => absurd rfl h⟩
  | mac v dflt =>
    simp only [set]
    split
    · exact ⟨rfl, fun _ => rfl⟩
    · exact ⟨rfl, fun h => absurd rfl h⟩
  | string s =>
    simp only [set]
    split
    · exact ⟨rfl, fun _ => rfl⟩
    · exact ⟨stateStringCopyToRaw_length s val, fun h => absurd rfl h⟩

/-- Setting a variable changes no value, or reports that one was set. -/
theorem stateSetVar_kept {name val : CString} : ∀ {vars vars' : List StateVariable} {set : Bool} {ret : Int},
    stateSetVar vars name val = some (vars', set, ret) →
      List.Forall₂ (fun a b => a.name = b.name ∧ a.start = b.start ∧ a.size = b.size) vars vars' ∧
      (set = false → vars' = vars) ∧ (ret ≠ 0 → set = false)
  | [], vars', set, ret, h => by
    cases h
    exact ⟨.nil, fun _ => rfl, fun _ => rfl⟩
  | sv :: vars, vars', set, ret, h => by
    have hself : ∀ vs : List StateVariable, List.Forall₂
        (fun a b => a.name = b.name ∧ a.start = b.start ∧ a.size = b.size) vs vs :=
      fun vs => List.forall₂_same.2 fun _ _ => ⟨rfl, rfl, rfl⟩
    rw [stateSetVar] at h
    split at h
    · split at h
      · cases h
      · split at h
        · cases h
          exact ⟨hself _, fun _ => rfl, fun _ => rfl⟩
        · obtain ⟨hsize, hkept⟩ := sv.data.set_kept val
          rcases hd : sv.data.set val with ⟨data, r⟩
          rw [hd] at h hsize hkept
          cases h
          refine ⟨.cons ⟨rfl, rfl, hsize.symm⟩ (hself _), fun hset => ?_, fun hret => by simp [hret]⟩
          have hdata : data = sv.data := hkept (by simpa using hset)
          rw [hdata]
    · obtain ⟨⟨vs, s, r⟩, hrest, heq⟩ := Option.map_eq_some_iff.1 h
      obtain ⟨hall, hkept, hret⟩ := stateSetVar_kept hrest
      cases heq
      exact ⟨.cons ⟨rfl, rfl, rfl⟩ hall, fun hset => by rw [hkept hset], hret⟩

end DtUtils
