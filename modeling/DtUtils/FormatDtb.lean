/-
The dtb format of `backend_format_dtb.c`, with `state_to_node` and the export
functions of the variables. The format keeps the tree that it parsed or
packed last. `none` results are accesses outside an object, or to one that
was freed, and imports of a node of another type that go through a pointer.
-/
import DtUtils.FdtFlatten
import DtUtils.StateAccess

namespace DtUtils
open Lib

/-! ## Verify and unpack -/

/-- `fdtb->root` -/
abbrev DtbFormat := Option DeviceNode

/-- `state_backend_format_dtb_verify`, which looks at neither the magic nor
the flags: the tree kept, the return value and `*lenp`. -/
def dtbVerify (root : DtbFormat) (buf : Bytes) (len : Int) : Option (DtbFormat × Int × Int) := do
  let dtbLen ← be32At buf 4
  if (len % 2 ^ 64).toNat < dtbLen then return (root, -EINVAL, len)
  else
    match ofUnflattenDtb buf with
    | none => none
    | some (.error e) => return (none, e, len)
    | some (.ok root) => return (some root, 0, dtbLen)

/-- A default that pointed into the tree that was freed. -/
def StateString.freeDefault (s : StateString) : StateString :=
  match s.valueDefault with
  | .tree _ => { s with valueDefault := .freed }
  | _ => s

def VarData.freeDefault : VarData → VarData
  | .string s => .string s.freeDefault
  | data => data

def StateVariable.freeDefault (sv : StateVariable) : StateVariable := { sv with data := sv.data.freeDefault }

/-- `state_backend_format_dtb_unpack`: the tree kept is used, if there is one,
and freed. What `state_from_node` makes of a tree is left open here. -/
def dtbUnpackWith (importer : StateData → DeviceNode → Option (List StateVariable × Int)) (root : DtbFormat)
    (s : StateData) (buf : Bytes) (len : Int) : Option (DtbFormat × List StateVariable × Int) := do
  let root ← match root with
    | some root => some (some root)
    | none => (dtbVerify none buf len).map fun (root, _) => root
  match root with
  -- There is no `magic` property in no node.
  | none => return (none, s.vars, -EINVAL)
  | some root =>
    let (vars, ret) ← importer s root
    return (none, vars.map StateVariable.freeDefault, ret)

def dtbUnpack : DtbFormat → StateData → Bytes → Int → Option (DtbFormat × List StateVariable × Int) :=
  dtbUnpackWith stateFromNode

/-! ## Pack -/

/-- `of_property_write_u32` to a new node. -/
def u32Property (name : String) (value : UInt32) : Property := ⟨cstr name, beBytes 4 value.toNat⟩

/-- `of_property_write_string` -/
def stringProperty (name : String) (value : CString) : Property := ⟨cstr name, value.1 ++ [0]⟩

/-- `state_uint32_export`; a default of 0 is left out. -/
def stateUint32Export (value valueDefault : UInt32) : List Property :=
  (if valueDefault ≠ 0 then [u32Property "default" valueDefault] else []) ++ [u32Property "value" value]

/-- `state_enum32_export` -/
def stateEnum32Export (value valueDefault : UInt32) (names : List CString) : List Property :=
  (if valueDefault ≠ 0 then [u32Property "default" valueDefault] else []) ++
    [⟨cstr "names", names.flatMap fun name => name.1 ++ [0]⟩, u32Property "value" value]

/-- `state_mac_export` -/
def stateMacExport (value valueDefault : Mac) : List Property :=
  (if valueDefault.1 ≠ List.replicate 6 0 then [⟨cstr "default", valueDefault.1⟩] else []) ++
    [⟨cstr "value", value.1⟩]

/-- `state_string_export`: of the copy that `value` points to, not of `raw`. -/
def stateStringExport (string : StateString) : Option (List Property) :=
  let value := (string.value.map (stringProperty "value")).toList
  match string.valueDefault with
  | .freed => none
  | .null => some value
  | .str s | .tree s => some (stringProperty "default" s :: value)

/-- `vtype->export`, where `vtype` is the type that the node names. -/
def VariableType.export (vtype : VariableType) (data : VarData) : Option (List Property) :=
  match vtype, data with
  | .uint8, .uint8 value dflt | .uint32, .uint8 value dflt | .uint8, .uint32 value dflt | .uint32, .uint32 value dflt
  | .uint8, .enum32 value dflt _ | .uint32, .enum32 value dflt _ => some (stateUint32Export value dflt)
  | .uint8, .mac value dflt | .uint32, .mac value dflt =>
    some (stateUint32Export (macNumbers value dflt).1 (macNumbers value dflt).2)
  | .enum32, .enum32 value dflt names => some (stateEnum32Export value dflt names)
  | .mac, .mac value dflt => some (stateMacExport value dflt)
  | .string, .string s => stateStringExport s
  | _, _ => none

/-- The properties that `state_convert_node_variable` gives the new node of a
variable. -/
def variableProperties (vtype : VariableType) (sv : StateVariable) : Option (List Property) := do
  let properties ← vtype.export sv.data
  return stringProperty "type" vtype.typeName ::
    ⟨cstr "reg", beBytes 4 sv.start.toNat ++ beBytes 4 sv.size⟩ :: properties

/-- The end of `state_convert_node_variable` for `STATE_CONVERT_TO_NODE`, where
the children of the new node are there. -/
def stateConvertVariableToNode (vars : List StateVariable) (name : CString) (node : DeviceNode)
    (children : List DeviceNode) : Option (Except Int DeviceNode) :=
  match ofPropertyReadString node (cstr "type") with
  | .error e =>
    if ¬ node.children.isEmpty ∧ e = -EINVAL then some (.ok (.node node.name 0 [] children)) else some (.error e)
  | .ok typeName =>
    match stateFindTypeByName typeName with
    | none => some (.error (-ENOENT))
    | some vtype =>
      match stateFindVar vars name with
      | none => some (.ok (.node node.name 0 [] children))
      | some sv => (variableProperties vtype sv).map fun properties => .ok (.node node.name 0 properties children)

mutual
/-- `state_convert_node_variable` for `STATE_CONVERT_TO_NODE` -/
def stateConvertNodeToNode (vars : List StateVariable) (parentName : CString) :
    DeviceNode → Option (Except Int DeviceNode)
  | .node nodeName phandle properties children => do
    let name := variableName parentName nodeName
    match ← stateConvertChildrenToNode vars name children with
    | .error e => return .error e
    | .ok new => stateConvertVariableToNode vars name (.node nodeName phandle properties children) new

def stateConvertChildrenToNode (vars : List StateVariable) (name : CString) :
    List DeviceNode → Option (Except Int (List DeviceNode))
  | [] => some (.ok [])
  | child :: children => do
    match ← stateConvertNodeToNode vars name child with
    | .error e => return .error e
    | .ok new =>
      match ← stateConvertChildrenToNode vars name children with
      | .error e => return .error e
      | .ok news => return .ok (new :: news)
end

/-- `state_to_node` for `STATE_CONVERT_TO_NODE`; a node without a parent has no
name. -/
def stateToNode (s : StateData) : Option (Except Int DeviceNode) := do
  match ← stateConvertChildrenToNode s.vars .empty s.node.children with
  | .error e => return .error e
  | .ok children => return .ok (.node .empty 0 [u32Property "magic" s.magic] children)

/-- `state_backend_format_dtb_pack`; what `realloc` leaves may depend on
everything. -/
def dtbPack (junk : DeviceNode → Junk) (root : DtbFormat) (s : StateData) : Option (DtbFormat × Except Int Bytes) := do
  match ← stateToNode s with
  | .error e => return (root, .error e)
  | .ok new =>
    match ← ofFlattenDtb (junk new) new with
    | none => return (root, .error (-EINVAL))
    | some fdt =>
      let len ← be32At fdt 4
      return (some new, .ok (fdt.take len))

/-- The format, whatever it imports with. -/
def dtbFormatWith (importer : StateData → DeviceNode → Option (List StateVariable × Int))
    (junk : DeviceNode → Junk) : Format DtbFormat where
  verify _ _ := dtbVerify
  unpack := dtbUnpackWith importer
  pack := dtbPack junk

def dtbFormat : (DeviceNode → Junk) → Format DtbFormat := dtbFormatWith stateFromNode

@[simp] theorem dtbFormat_pack (junk : DeviceNode → Junk) : (dtbFormat junk).pack = dtbPack junk := rfl

end DtUtils
