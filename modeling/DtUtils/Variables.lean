/-
The variables of a state: name, position and value of each, and the value's
raw bytes, which is what the raw format stores. The `raw` pointer of a
`struct state_variable` aims at the value itself, except for a string, whose
`value` is a copy that only some of its operations keep.
-/
import DtUtils.Common

namespace DtUtils
open Lib

/-- The bytes of a C string, without its NUL. -/
abbrev CString := { s : Bytes // (0 : UInt8) ∉ s }

/-- The six bytes of a MAC address. -/
abbrev Mac := { m : Bytes // m.length = 6 }

/-- A `value_default`: it points into the device tree node it was imported
from, which is that of the state's description, or in a tree that the dtb
format frees once it is imported. -/
inductive DefaultPtr
  | null
  | str (s : CString)
  | tree (s : CString)
  | freed
deriving DecidableEq

/-- `struct state_string`; the variable's size is that of `raw`. -/
structure StateString where
  raw : Bytes
  value : Option CString
  valueDefault : DefaultPtr
  le_4096 : raw.length ≤ 4096
deriving DecidableEq

/-- The values of the five variable types. -/
inductive VarData
  | uint8 (value valueDefault : UInt32)
  | uint32 (value valueDefault : UInt32)
  | enum32 (value valueDefault : UInt32) (names : List CString)
  | mac (value valueDefault : Mac)
  | string (s : StateString)
deriving DecidableEq

/-- `var.size` -/
def VarData.size : VarData → Nat
  | .uint8 .. => 1
  | .uint32 .. => 4
  | .enum32 .. => 4
  | .mac .. => 6
  | .string s => s.raw.length

/-- The bytes at `var.raw`, on a little-endian machine. -/
def VarData.raw : VarData → Bytes
  | .uint8 v _ => [v.toUInt8]
  | .uint32 v _ => leBytes 4 v.toNat
  | .enum32 v _ _ => leBytes 4 v.toNat
  | .mac v _ => v
  | .string s => s.raw

/-- The value after `var.size` bytes were stored at `var.raw`. -/
def VarData.setRaw (d : VarData) (bs : Bytes) : VarData :=
  match d with
  | .uint8 v dflt => .uint8 (UInt32.ofNat (v.toNat / 256 * 256 + (bs.headD 0).toNat)) dflt
  | .uint32 _ dflt => .uint32 (UInt32.ofNat (leNat bs)) dflt
  | .enum32 _ dflt names => .enum32 (UInt32.ofNat (leNat bs)) dflt names
  | .mac v dflt => .mac (if h : bs.length = 6 then ⟨bs, h⟩ else v) dflt
  | .string s => .string (if h : bs.length = s.raw.length then { s with raw := bs, le_4096 := h ▸ s.le_4096 } else s)

@[simp] theorem VarData.raw_length (d : VarData) : d.raw.length = d.size := by
  cases d with
  | uint8 => rfl
  | uint32 => exact leBytes_length 4 _
  | enum32 => exact leBytes_length 4 _
  | mac v => exact v.2
  | string => rfl

theorem VarData.size_le (d : VarData) : d.size ≤ 4096 := by
  cases d with
  | string s => exact s.le_4096
  | _ => simp [size]

@[simp] theorem VarData.setRaw_size (d : VarData) (bs : Bytes) : (d.setRaw bs).size = d.size := by
  cases d with
  | string s =>
    simp only [setRaw]
    split
    · next h => exact h
    · rfl
  | _ => rfl

theorem low_byte (v : UInt32) (b : UInt8) : (UInt32.ofNat (v.toNat / 256 * 256 + b.toNat)).toUInt8 = b := by
  have hb := b.toNat_lt
  have hv := v.toNat_lt
  apply UInt8.toNat_inj.1
  simp only [UInt32.toNat_toUInt8, UInt32.toNat_ofNat']
  omega

theorem leBytes_ofNat {bs : Bytes} (h : bs.length = 4) : leBytes 4 (UInt32.ofNat (leNat bs)).toNat = bs := by
  have hlt := leNat_lt bs
  rw [h] at hlt
  rw [UInt32.toNat_ofNat', Nat.mod_eq_of_lt (by omega), ← h, leBytes_leNat]

theorem VarData.setRaw_raw {d : VarData} {bs : Bytes} (h : bs.length = d.size) : (d.setRaw bs).raw = bs := by
  cases d with
  | uint8 v dflt =>
    obtain ⟨b, rfl⟩ := List.length_eq_one_iff.1 h
    simp only [setRaw, raw, List.headD_cons, low_byte]
  | uint32 | enum32 => exact leBytes_ofNat h
  | mac v dflt =>
    simp only [setRaw, raw]
    rw [dif_pos (show bs.length = 6 from h)]
  | string s =>
    simp only [setRaw, raw]
    rw [dif_pos (show bs.length = s.raw.length from h)]

/-- `struct state_variable` with the type's own members. -/
structure StateVariable where
  name : CString
  start : UInt32
  data : VarData
deriving DecidableEq

def StateVariable.size (sv : StateVariable) : Nat := sv.data.size

def StateVariable.raw (sv : StateVariable) : Bytes := sv.data.raw

/-- `sv->start + sv->size`, an `unsigned int`. -/
def StateVariable.endPos (sv : StateVariable) : Nat := (sv.start.toNat + sv.size) % 2 ^ 32

end DtUtils
