/-
The description of a state in the device tree and the variables it makes:
`state_from_node` of `state.c` with the `create` and `import` functions of
`state_variables.c`. `none` results are accesses outside an object, or to one
that was freed. A stored tree may give a variable a node of another type, whose
`import` then takes the object's members for its own: this is followed as far
as it meets numbers, on a little-endian machine whose pointers have 64 bits,
and is `none` as well where it meets a pointer.
-/
import DtUtils.DeviceTree
import Mathlib.Data.List.Sort

namespace DtUtils
open Lib

/-! ## Variable types -/

/-- `enum state_variable_type` -/
inductive VariableType
  | uint8
  | uint32
  | enum32
  | mac
  | string
deriving DecidableEq

/-- `type_name` -/
def VariableType.typeName : VariableType → CString
  | .uint8 => cstr "uint8"
  | .uint32 => cstr "uint32"
  | .enum32 => cstr "enum32"
  | .mac => cstr "mac"
  | .string => cstr "string"

/-- `types` -/
def variableTypes : List VariableType := [.uint8, .uint32, .enum32, .mac, .string]

def stateFindTypeByName (name : CString) : Option VariableType := variableTypes.find? (·.typeName = name)

def VarData.type : VarData → VariableType
  | .uint8 .. => .uint8
  | .uint32 .. => .uint32
  | .enum32 .. => .enum32
  | .mac .. => .mac
  | .string .. => .string

/-! ## Import -/

/-- `state_uint32_import`: the value and its default. -/
def stateUint32Import (node : DeviceNode) (valueDefault : UInt32) : UInt32 × UInt32 :=
  let valueDefault := (ofPropertyReadU32 node (cstr "default")).toOption.getD valueDefault
  ((ofPropertyReadU32 node (cstr "value")).toOption.getD valueDefault, valueDefault)

/-- `state_enum32_import` -/
def stateEnum32Import (node : DeviceNode) (value valueDefault : UInt32) : UInt32 × UInt32 × Int :=
  let new := ofFindProperty node (cstr "value")
  let newDefault := ofFindProperty node (cstr "default")
  if new.any (·.value.length ≠ 4) || newDefault.any (·.value.length ≠ 4) then (value, valueDefault, -EINVAL)
  else
    let valueDefault := (newDefault.map (cell 0 ·.value)).getD valueDefault
    ((new.map (cell 0 ·.value)).getD valueDefault, valueDefault, 0)

/-- `state_mac_import` -/
def stateMacImport (node : DeviceNode) (valueDefault : Mac) : Mac × Mac :=
  let valueDefault := (ofPropertyReadMac node (cstr "default")).toOption.getD valueDefault
  ((ofPropertyReadMac node (cstr "value")).toOption.getD valueDefault, valueDefault)

/-- `state_string_copy_to_raw` -/
def stateStringCopyToRaw (string : StateString) (src : CString) : StateString × Int :=
  if h : src.1.length ≤ string.raw.length then
    ({ string with
        raw := src.1 ++ List.replicate (string.raw.length - src.1.length) 0
        le_4096 := by have := string.le_4096; simp; omega }, 0)
  else (string, -EILSEQ)

theorem stateStringCopyToRaw_length (string : StateString) (src : CString) :
    (stateStringCopyToRaw string src).1.raw.length = string.raw.length := by
  rw [stateStringCopyToRaw]
  split
  · simp only [List.length_append, List.length_replicate]
    omega
  · rfl

/-- The beginning of `state_string_import`: the default is kept where it is. -/
def stateStringImportDefault (node : DeviceNode) (string : StateString) : StateString :=
  match ofPropertyReadString node (cstr "default") with
  | .ok s => { string with valueDefault := .str s }
  | .error _ => string

/-- The end of `state_string_import`; without a property, `value` is the
default. -/
def stateStringImportValue (node : DeviceNode) (string : StateString) (valueDefault : Option CString) :
    StateString × Int :=
  match (ofPropertyReadString node (cstr "value")).toOption <|> valueDefault with
  | none => (string, 0)
  | some value => stateStringCopyToRaw string value

/-- `state_string_import` -/
def stateStringImport (node : DeviceNode) (string : StateString) : Option (StateString × Int) :=
  let string := stateStringImportDefault node string
  match string.valueDefault with
  -- The node an earlier default was imported from is gone.
  | .freed => none
  | .str s | .tree s =>
    if string.raw.length < s.1.length then some (string, -EILSEQ)
    else some (stateStringImportValue node string (some s))
  | .null => some (stateStringImportValue node string none)

/-! ## Import into an object of another type -/

/-- The first eight of the twelve bytes of a `struct state_mac`, as `value` and
`value_default` of a number. -/
def macNumbers (value valueDefault : Mac) : UInt32 × UInt32 :=
  let members := value.1 ++ valueDefault.1
  (.ofNat (leNat (slice 0 4 members)), .ofNat (leNat (slice 4 4 members)))

/-- The bytes once these numbers are stored there. -/
def macOfNumbers (valueDefault : Mac) (number numberDefault : UInt32) : Mac × Mac :=
  let members := leBytes 4 number.toNat ++ leBytes 4 numberDefault.toNat ++ valueDefault.1.drop 2
  have hlen : members.length = 12 := by simp [members, valueDefault.2]
  (⟨members.take 6, by simp [hlen]⟩, ⟨members.drop 6, by simp [hlen]⟩)

/-- `state_mac_import` on a number, which has eight bytes: `value` of a mac
takes the first six, and its `value_default` goes beyond them. -/
def stateMacImportNumber (node : DeviceNode) (valueDefault : UInt32) : Option (UInt32 × UInt32) :=
  match ofPropertyReadMac node (cstr "default"), ofPropertyReadMac node (cstr "value") with
  | .error _, .ok m =>
    some (.ofNat (leNat (m.1.take 4)), .ofNat (leNat (m.1.drop 4) + valueDefault.toNat / 2 ^ 16 * 2 ^ 16))
  | _, _ => none

/-- `state_string_import` on a mac whose node has no default: the pointer is
the last four bytes of the mac's default and four that nobody sets, and `raw`
lies behind the object. -/
def stateStringImportMac (node : DeviceNode) (valueDefault : Mac) : Option Int :=
  match ofPropertyReadString node (cstr "default"), ofPropertyReadString node (cstr "value") with
  | .ok _, _ => none
  | .error _, value =>
    if valueDefault.1.drop 2 ≠ [0, 0, 0, 0] then none
    else
      match value with
      | .error _ => some 0
      | .ok s => if 6 < s.1.length then some (-EILSEQ) else none

/-- `vtype->import`, where `vtype` is the type that the node names: the
objects of the three types of numbers begin with the same members. -/
def VariableType.import (vtype : VariableType) (node : DeviceNode) (data : VarData) : Option (VarData × Int) :=
  match vtype, data with
  | .uint8, .uint8 _ dflt | .uint32, .uint8 _ dflt =>
    let (value, dflt) := stateUint32Import node dflt
    some (.uint8 value dflt, 0)
  | .uint8, .uint32 _ dflt | .uint32, .uint32 _ dflt =>
    let (value, dflt) := stateUint32Import node dflt
    some (.uint32 value dflt, 0)
  | .uint8, .enum32 _ dflt names | .uint32, .enum32 _ dflt names =>
    let (value, dflt) := stateUint32Import node dflt
    some (.enum32 value dflt names, 0)
  | .uint8, .mac value dflt | .uint32, .mac value dflt =>
    let (number, numberDefault) := stateUint32Import node (macNumbers value dflt).2
    let (value, dflt) := macOfNumbers dflt number numberDefault
    some (.mac value dflt, 0)
  | .enum32, .uint8 value dflt =>
    let (value, dflt, ret) := stateEnum32Import node value dflt
    some (.uint8 value dflt, ret)
  | .enum32, .uint32 value dflt =>
    let (value, dflt, ret) := stateEnum32Import node value dflt
    some (.uint32 value dflt, ret)
  | .enum32, .enum32 value dflt names =>
    let (value, dflt, ret) := stateEnum32Import node value dflt
    some (.enum32 value dflt names, ret)
  | .enum32, .mac value dflt =>
    let (number, numberDefault) := macNumbers value dflt
    let (number, numberDefault, ret) := stateEnum32Import node number numberDefault
    let (value, dflt) := macOfNumbers dflt number numberDefault
    some (.mac value dflt, ret)
  | .mac, .uint8 _ dflt => (stateMacImportNumber node dflt).map fun (value, dflt) => (.uint8 value dflt, 0)
  | .mac, .uint32 _ dflt => (stateMacImportNumber node dflt).map fun (value, dflt) => (.uint32 value dflt, 0)
  -- Behind these eight bytes an enum32 has the pointer to its names.
  | .mac, .enum32 _ dflt names =>
    (stateMacImportNumber node dflt).map fun (value, dflt) => (.enum32 value dflt names, 0)
  | .mac, .mac _ dflt =>
    let (value, dflt) := stateMacImport node dflt
    some (.mac value dflt, 0)
  | .string, .mac value dflt => (stateStringImportMac node dflt).map fun ret => (.mac value dflt, ret)
  | .string, .string s => (stateStringImport node s).map fun (s, ret) => (.string s, ret)
  -- A string has its default behind the end of a number, and takes the names of an enum32 for it.
  | .string, .uint8 .. | .string, .uint32 .. | .string, .enum32 .. => none
  -- Where these have their numbers a string has its two pointers.
  | .uint8, .string _ | .uint32, .string _ | .enum32, .string _ | .mac, .string _ => none

/-- Numbers take nodes of any type of number, and the others nodes of their
own. -/
def VariableType.agrees : VariableType → VarData → Bool
  | .mac, .mac .. | .string, .string _ => true
  | .mac, _ | .string, _ | _, .mac .. | _, .string _ => false
  | _, _ => true

/-! ## Creation -/

/-- The object `state_string_create` sets up. -/
def StateString.zeroed (size : Nat) (h : size ≤ 4096) : StateString where
  raw := List.replicate size 0
  value := none
  valueDefault := .null
  le_4096 := by simpa using h

/-- `vtype->create` -/
def VariableType.create (node : DeviceNode) : VariableType → Option (Except Int VarData)
  | .uint8 => some (.ok (.uint8 0 0))
  | .uint32 => some (.ok (.uint32 0 0))
  | .enum32 =>
    match ofPropertyStrings node (cstr "names") with
    | none => none
    | some (.error _) => some (.error (-EINVAL))
    | some (.ok names) => some (.ok (.enum32 0 0 names))
  | .mac => some (.ok (.mac ⟨List.replicate 6 0, rfl⟩ ⟨List.replicate 6 0, rfl⟩))
  | .string =>
    match ofPropertyReadU32Pair node (cstr "reg") with
    | .error e => some (.error e)
    | .ok (_, size) =>
      if h : size.toNat ≤ 4096 then some (.ok (.string (.zeroed size.toNat h))) else some (.error (-EILSEQ))

/-- `state_var_compare` -/
def stateVarCompare (a b : StateVariable) : Int := if a.start < b.start then -1 else 1

/-- `list_add_sort`: in front of the first entry that does not compare as
smaller. -/
def listAddSort {α : Type} (compare : α → α → Int) (new : α) (head : List α) : List α :=
  head.orderedInsert (fun new pos => ¬ compare pos new < 0) new

/-- `state_add_var` -/
def stateAddVar (vars : List StateVariable) (var : StateVariable) : List StateVariable :=
  listAddSort stateVarCompare var vars

/-! ## From the device tree -/

/-- What the formats see of a `struct state`; `node` is the one at `of_path`. -/
structure StateData where
  magic : UInt32
  node : DeviceNode
  vars : List StateVariable

/-- The full name of a variable. -/
def variableName (parentName name : CString) : CString :=
  (parentName.append (if parentName.1 = [] then .empty else cstr ".")).append (shortName name)

/-- `state_convert_node_variable` from where the type is known, for
`STATE_CONVERT_FROM_NODE_CREATE`. The variable is filled before it is put in
its place; only the order of the two differs from the source. -/
def stateCreateVariable (name : CString) (node : DeviceNode) (vtype : VariableType) (vars : List StateVariable) :
    Option (List StateVariable × Int) := do
  match ← vtype.create node with
  | .error e => return (vars, e)
  | .ok data =>
    match ofPropertyReadU32Pair node (cstr "reg") with
    | .error e => return (vars, e)
    | .ok (start, size) =>
      if size.toNat ≠ data.size then return (vars, -EOVERFLOW)
      else
        let (data, ret) ← vtype.import node data
        return (stateAddVar vars ⟨name, start, data⟩, ret)

/-- A default that was imported from `node` points into it. -/
def VarData.inTree (node : DeviceNode) : VarData → VarData
  | .string s =>
    match ofPropertyReadString node (cstr "default") with
    | .ok dflt => .string { s with valueDefault := .tree dflt }
    | .error _ => .string s
  | data => data

/-- The same for `STATE_CONVERT_FROM_NODE`, on the first variable of that
name; it is no error if there is none. -/
def stateImportVariable (name : CString) (node : DeviceNode) (vtype : VariableType) :
    List StateVariable → Option (List StateVariable × Int)
  | [] => some ([], 0)
  | sv :: vars =>
    if sv.name = name then
      (vtype.import node sv.data).map fun (data, ret) => ({ sv with data := data.inTree node } :: vars, ret)
    else (stateImportVariable name node vtype vars).map fun (vars, ret) => (sv :: vars, ret)

/-- `state_convert_node_variable` once the children are converted. -/
def stateConvertVariable (create : Bool) (name : CString) (node : DeviceNode) (vars : List StateVariable) :
    Option (List StateVariable × Int) :=
  match ofPropertyReadString node (cstr "type") with
  | .error e =>
    -- Parents are allowed to have no type.
    if ¬ node.children.isEmpty ∧ e = -EINVAL then some (vars, 0) else some (vars, e)
  | .ok typeName =>
    match stateFindTypeByName typeName with
    | none => some (vars, -ENOENT)
    | some vtype =>
      if create then stateCreateVariable name node vtype vars else stateImportVariable name node vtype vars

mutual
/-- `state_convert_node_variable` for the two directions from a node. -/
def stateConvertNodeVariable (create : Bool) (parentName : CString) (vars : List StateVariable) :
    DeviceNode → Option (List StateVariable × Int)
  | .node nodeName phandle properties children => do
    let name := variableName parentName nodeName
    let (vars, ret) ← stateConvertChildren create name vars children
    if ret ≠ 0 then return (vars, ret)
    else stateConvertVariable create name (.node nodeName phandle properties children) vars

/-- Its loop over the children, up to the first error. -/
def stateConvertChildren (create : Bool) (name : CString) (vars : List StateVariable) :
    List DeviceNode → Option (List StateVariable × Int)
  | [] => some (vars, 0)
  | child :: children => do
    let (vars, ret) ← stateConvertNodeVariable create name vars child
    if ret ≠ 0 then return (vars, ret) else stateConvertChildren create name vars children
end

/-- Two neighbours of the list do not keep their distance. -/
def variablesConflict : List StateVariable → Bool
  | last :: sv :: vars =>
    !decide (last.start + UInt32.ofNat last.size - 1 < sv.start) || variablesConflict (sv :: vars)
  | _ => false

/-- `state_from_node` with `create`: the new state, and the return value. -/
def stateFromNodeCreate (node : DeviceNode) : Option (StateData × Int) :=
  match ofPropertyReadU32 node (cstr "magic") with
  | .error e => some (⟨0, node, []⟩, e)
  | .ok magic => do
    let (vars, ret) ← stateConvertChildren true .empty [] node.children
    let s : StateData := ⟨magic, node, vars⟩
    if ret ≠ 0 then return (s, ret) else return (s, if variablesConflict vars then -EINVAL else 0)

/-- `state_from_node` without `create`: the variables afterwards, and the
return value. -/
def stateFromNode (s : StateData) (node : DeviceNode) : Option (List StateVariable × Int) :=
  match ofPropertyReadU32 node (cstr "magic") with
  | .error e => some (s.vars, e)
  | .ok magic =>
    if s.magic ≠ 0 ∧ s.magic ≠ magic then some (s.vars, -EINVAL)
    else stateConvertChildren false .empty s.vars node.children

end DtUtils
