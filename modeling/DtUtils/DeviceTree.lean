/-
Device tree nodes as `libdt.c` keeps them, and the functions the state code
reads their properties with. A property's value is a byte string of its own;
`none` results are accesses outside it.
-/
import DtUtils.Variables
import Mathlib.Data.List.TakeWhile

namespace DtUtils
open Lib

/-! ## C strings -/

def CString.empty : CString := ⟨[], by simp⟩

def CString.append (s t : CString) : CString := ⟨s.1 ++ t.1, by simp [s.2, t.2]⟩

/-- A string literal. -/
def cstr (s : String) : CString := ⟨(s.toList.map fun c => UInt8.ofNat c.toNat).filter (· ≠ 0), by simp⟩

/-- The string in front of the first NUL, or of the end of the bytes. -/
def CString.of (bs : Bytes) : CString :=
  ⟨bs.takeWhile (· ≠ 0), fun h => by simpa using List.mem_takeWhile_imp h⟩

/-- The strings that follow one another in `bs`, each with its NUL; `acc` is
the beginning of the first one. `none` if there is no NUL at the end. -/
def splitStrings (acc : Bytes) : Bytes → Option (List CString)
  | [] => if acc = [] then some [] else none
  | b :: bs => if b = 0 then (CString.of acc :: ·) <$> splitStrings [] bs else splitStrings (acc ++ [b]) bs

/-! ## Nodes -/

/-- `struct property` -/
structure Property where
  name : CString
  value : Bytes
deriving DecidableEq

/-- `struct device_node`; its path follows from where it is. -/
inductive DeviceNode
  | node (name : CString) (phandle : UInt32) (properties : List Property) (children : List DeviceNode)

def DeviceNode.name : DeviceNode → CString
  | .node name _ _ _ => name

def DeviceNode.properties : DeviceNode → List Property
  | .node _ _ properties _ => properties

def DeviceNode.children : DeviceNode → List DeviceNode
  | .node _ _ _ children => children

/-- `of_find_property` -/
def ofFindProperty (np : DeviceNode) (name : CString) : Option Property := np.properties.find? (·.name = name)

/-- `of_find_property_value_of_size` -/
def ofFindPropertyValueOfSize (np : DeviceNode) (propname : CString) (len : Nat) : Except Int Bytes :=
  match ofFindProperty np propname with
  | none => .error (-EINVAL)
  | some prop => if prop.value.length < len then .error (-EOVERFLOW) else .ok prop.value

/-- A 32-bit cell of a property, at byte `off`. -/
def cell (off : Nat) (value : Bytes) : UInt32 := .ofNat (beNat (slice off 4 value))

theorem cell_beBytes (v : UInt32) : cell 0 (beBytes 4 v.toNat) = v := by
  rw [cell, slice, List.drop_zero, List.take_of_length_le (by rw [beBytes_length]), beNat_beBytes_of_lt v.toNat_lt,
    UInt32.ofNat_toNat]

/-- `of_property_read_u32` -/
def ofPropertyReadU32 (np : DeviceNode) (propname : CString) : Except Int UInt32 := do
  let value ← ofFindPropertyValueOfSize np propname 4
  return cell 0 value

/-- `of_property_read_u32_array` of two cells -/
def ofPropertyReadU32Pair (np : DeviceNode) (propname : CString) : Except Int (UInt32 × UInt32) := do
  let value ← ofFindPropertyValueOfSize np propname 8
  return (cell 0 value, cell 4 value)

/-- `of_property_read_u8_array` of a MAC address -/
def ofPropertyReadMac (np : DeviceNode) (propname : CString) : Except Int Mac :=
  match ofFindPropertyValueOfSize np propname 6 with
  | .error e => .error e
  | .ok value => if h : (value.take 6).length = 6 then .ok ⟨value.take 6, h⟩ else .error (-EOVERFLOW)

/-- `of_property_read_string` -/
def ofPropertyReadString (np : DeviceNode) (propname : CString) : Except Int CString :=
  match ofFindProperty np propname with
  | none => .error (-EINVAL)
  | some prop => if (0 : UInt8) ∈ prop.value then .ok (CString.of prop.value) else .error (-EILSEQ)

/-- `of_property_count_strings`, and `of_property_read_string_index` for each
of them: both go through the value up to its length without looking for a NUL
at its end. -/
def ofPropertyStrings (np : DeviceNode) (propname : CString) : Option (Except Int (List CString)) :=
  match ofFindProperty np propname with
  | none => some (.error (-EINVAL))
  | some prop =>
    if (0 : UInt8) ∈ prop.value then .ok <$> splitStrings [] prop.value else some (.error (-EILSEQ))

/-- The name of a node without its address, `@` and what follows. -/
def shortName (name : CString) : CString :=
  ⟨name.1.takeWhile (· ≠ 64), fun h => name.2 ((List.takeWhile_sublist _).mem h)⟩

end DtUtils
