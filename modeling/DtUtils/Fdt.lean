/-
`of_unflatten_dtb` of `fdt.c`: a flat loop over the tags of a device tree
blob, with a cursor and a pointer to the current node. `none` results are
accesses outside the blob, or to a node that is missing.
-/
import DtUtils.DeviceTree

namespace DtUtils
open Lib

/-! ## The blob -/

/-- `FDT_MAGIC` -/
def fdtMagic : Nat := 0xd00dfeed

def fdtBeginNode : Nat := 1
def fdtEndNode : Nat := 2
def fdtProp : Nat := 3
def fdtNop : Nat := 4
def fdtEnd : Nat := 9

/-- What the parser keeps of a `struct fdt_header`. -/
structure FdtHeader where
  totalsize : Nat
  offDtStruct : Nat
  sizeDtStruct : Nat
  offDtStrings : Nat
  sizeDtStrings : Nat
deriving DecidableEq

/-- A big-endian word of the blob. -/
def be32At (fdt : Bytes) (off : Nat) : Option Nat :=
  if off + 4 ≤ fdt.length then some (beNat (slice off 4 fdt)) else none

/-- `strnlen` of the string at `pos`. -/
def strnlenAt (fdt : Bytes) (pos maxlen : Nat) : Option Nat :=
  let n := (((fdt.drop pos).take maxlen).takeWhile (· ≠ 0)).length
  if n < maxlen ∧ fdt.length ≤ pos + n then none else some n

/-- The string at `pos`, up to its NUL. -/
def stringAt (fdt : Bytes) (pos : Nat) : Option CString :=
  let s := CString.of (fdt.drop pos)
  if pos + s.1.length < fdt.length then some s else none

/-- `len` bytes at `pos`, with `len` an `int`. -/
def bytesAt (fdt : Bytes) (pos len : Nat) : Option Bytes :=
  if len < 2 ^ 31 ∧ pos + len ≤ fdt.length then some (slice pos len fdt) else none

/-- The checks at the beginning of `of_unflatten_dtb`. -/
def fdtHeader (fdt : Bytes) : Option (Except Int FdtHeader) := do
  let magic ← be32At fdt 0
  if magic ≠ fdtMagic then return .error (-EINVAL)
  else do
    let version ← be32At fdt 20
    if version ≠ 17 then return .error (-EINVAL)
    else do
      let totalsize ← be32At fdt 4
      let offDtStruct ← be32At fdt 8
      let sizeDtStruct ← be32At fdt 36
      let offDtStrings ← be32At fdt 12
      let sizeDtStrings ← be32At fdt 32
      if totalsize < (offDtStruct + sizeDtStruct) % 2 ^ 32 then return .error (-ESPIPE)
      else if totalsize < (offDtStrings + sizeDtStrings) % 2 ^ 32 then return .error (-ESPIPE)
      else return .ok ⟨totalsize, offDtStruct, sizeDtStruct, offDtStrings, sizeDtStrings⟩

/-- `ALIGN(x, 4)` of a `uint32_t`. -/
def align4 (x : Nat) : Nat := (x + 3) % 2 ^ 32 / 4 * 4

/-- `dt_struct_advance` -/
def dtStructAdvance (f : FdtHeader) (dt size : Nat) : Nat :=
  let dt := align4 ((dt + size) % 2 ^ 32)
  if (f.offDtStruct + f.sizeDtStruct) % 2 ^ 32 < dt then 0 else dt

/-! ## The tree under construction -/

/-- A property is added at the end, and may set the phandle. -/
def DeviceNode.addProperty : DeviceNode → Property → DeviceNode
  | .node name phandle properties children, p =>
    .node name (if p.name = cstr "phandle" ∧ p.value.length = 4 then cell 0 p.value else phandle) (properties ++ [p])
      children

/-- A child is added at the end. -/
def DeviceNode.addChild : DeviceNode → DeviceNode → DeviceNode
  | .node name phandle properties children, child => .node name phandle properties (children ++ [child])

/-- `node`, its ancestors from the parent on, and whether it is not `NULL`. If it
is, `top` is the root. An open node becomes its parent's last child when it is
closed. -/
structure Unflattening where
  top : DeviceNode
  parents : List DeviceNode
  isOpen : Bool

/-- A root without anything in it. -/
def Unflattening.start : Unflattening := ⟨.node .empty 0 [] [], [], false⟩

/-- `FDT_BEGIN_NODE`: the root if there is no current node. -/
def Unflattening.beginNode (name : CString) (u : Unflattening) : Unflattening :=
  if u.isOpen then ⟨.node name 0 [] [], u.top :: u.parents, true⟩ else { u with isOpen := true }

/-- `node = node->parent` -/
def Unflattening.endNode (u : Unflattening) : Unflattening :=
  match u.parents with
  | [] => { u with isOpen := false }
  | parent :: parents => ⟨parent.addChild u.top, parents, true⟩

def Unflattening.addProperty (p : Property) (u : Unflattening) : Unflattening := { u with top := u.top.addProperty p }

/-- `root`, whether or not all nodes were closed. -/
def Unflattening.root (u : Unflattening) : DeviceNode := u.parents.foldl (fun node parent => parent.addChild node) u.top

/-! ## The loop -/

/-- What one round of the loop comes to. -/
inductive Unflattened
  | next (dtStruct : Nat) (u : Unflattening)
  | ret (r : Except Int DeviceNode)

/-- The end of a round. -/
def unflattenAdvance (f : FdtHeader) (dt size : Nat) (u : Unflattening) : Unflattened :=
  if dtStructAdvance f dt size = 0 then .ret (.error (-ESPIPE)) else .next (dtStructAdvance f dt size) u

/-- What is left of the structure block for a name, as an `unsigned int`. -/
def FdtHeader.maxlen (f : FdtHeader) (dt : Nat) : Nat :=
  ((f.offDtStruct + f.sizeDtStruct - (dt + 4) : Int) % 2 ^ 32).toNat

/-- `FDT_BEGIN_NODE` -/
def unflattenBeginNode (fdt : Bytes) (f : FdtHeader) (dt : Nat) (u : Unflattening) : Option Unflattened := do
  let len ← strnlenAt fdt (dt + 4) ((f.maxlen dt + 1) % 2 ^ 32)
  if f.maxlen dt < len % 2 ^ 32 then return .ret (.error (-ESPIPE))
  else do
    -- The root gets no name.
    let name ← if u.isOpen then stringAt fdt (dt + 4) else some .empty
    return unflattenAdvance f dt (4 + len + 1) (u.beginNode name)

/-- `FDT_PROP` -/
def unflattenProp (fdt : Bytes) (f : FdtHeader) (dt : Nat) (u : Unflattening) : Option Unflattened := do
  let len ← be32At fdt (dt + 4)
  let nameoff ← be32At fdt (dt + 8)
  if f.sizeDtStrings < nameoff then return .ret (.error (-ESPIPE))
  else do
    let name ← stringAt fdt (f.offDtStrings + nameoff)
    let value ← bytesAt fdt (dt + 12) len
    if u.isOpen then return unflattenAdvance f dt (12 + len) (u.addProperty ⟨name, value⟩) else none

/-- One round of the loop of `of_unflatten_dtb`. -/
def unflattenStep (fdt : Bytes) (f : FdtHeader) (dt : Nat) (u : Unflattening) : Option Unflattened := do
  let tag ← be32At fdt dt
  if tag = fdtBeginNode then unflattenBeginNode fdt f dt u
  else if tag = fdtEndNode then
    return if u.isOpen then unflattenAdvance f dt 4 u.endNode else .ret (.error (-EINVAL))
  else if tag = fdtProp then unflattenProp fdt f dt u
  else if tag = fdtNop then return unflattenAdvance f dt 4 u
  else if tag = fdtEnd then return .ret (.ok u.root)
  else return .ret (.error (-EINVAL))

/-- At most `n` rounds. -/
def unflattenLoop (fdt : Bytes) (f : FdtHeader) : Nat → Nat → Unflattening → Option Unflattened
  | 0, dt, u => some (.next dt u)
  | n + 1, dt, u =>
    match unflattenStep fdt f dt u with
    | some (.next dt u) => unflattenLoop fdt f n dt u
    | r => r

/-- `of_unflatten_dtb`; the cursor is never twice at the same place of the blob. -/
def ofUnflattenDtb (fdt : Bytes) : Option (Except Int DeviceNode) :=
  match fdtHeader fdt with
  | none => none
  | some (.error e) => some (.error e)
  | some (.ok f) =>
    match unflattenLoop fdt f (fdt.length + 1) f.offDtStruct .start with
    | some (.ret r) => some r
    | _ => none

end DtUtils
