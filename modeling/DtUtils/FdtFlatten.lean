/-
`of_flatten_dtb` of `fdt.c`: two buffers that grow, and a recursion over the
tree. A result without a value is an access outside a buffer or to one that
`realloc` has moved; no allocation fails but one of no bytes.
-/
import DtUtils.Fdt

namespace DtUtils
open Lib

def ENOMEM : Int := 12

/-- `BUFSIZE` -/
def fdtBufsize : Nat := 64 * 1024

/-- `struct fdt`: `dt_size` and `str_size` are the lengths of the buffers, and
the reallocations of each are counted. -/
structure Fdt where
  dt : Bytes
  dtNextofs : Nat
  strings : Bytes
  strNextofs : Nat
  dtReallocs : Nat
  strReallocs : Nat

/-- What the `n`-th `realloc` leaves in the bytes that it adds. -/
abbrev Junk := Nat → Nat → UInt8

/-- `realloc` -/
def realloc (junk : Nat → UInt8) (size : Nat) (buf : Bytes) : Bytes :=
  buf.take size ++ (List.range (size - buf.length)).map fun i => junk (buf.length + i)

/-- The difference of two `uint32_t`. -/
@[irreducible] def sub32 (a b : Nat) : Nat := ((a - b : Int) % 2 ^ 32).toNat

theorem sub32_of_le {a b : Nat} (h : b ≤ a) (ha : a < 2 ^ 32) : sub32 a b = a - b := by
  unfold sub32
  omega

/-- `dt_next_ofs` -/
def dtNextOfs (curofs len : Nat) : Nat := align4 ((curofs + len) % 2 ^ 32)

/-- A write to `fdt->dt`. -/
def Fdt.write (off : Nat) (bs : Bytes) (fdt : Fdt) : Option Fdt :=
  if off + bs.length ≤ fdt.dt.length then some { fdt with dt := splice off bs fdt.dt } else none

/-- The loop of `lstrcpy`: what it leaves in `dest`, and its return value. It
does not copy the NUL. -/
def lstrcpyLoop (dest : Bytes) (off : Nat) : Bytes → Int → Nat → Option (Bytes × Int)
  | [], len, _ => some (dest, len)
  | c :: src, len, maxlen =>
    if off < dest.length then
      match maxlen with
      | 0 => some (dest.set off c, -ENOSPC)
      | maxlen + 1 => lstrcpyLoop (dest.set off c) (off + 1) src (len + 1) maxlen
    else none

/-- `lstrcpy` -/
def lstrcpy (dest : Bytes) (off : Nat) (src : CString) : Option (Bytes × Int) := lstrcpyLoop dest off src.1 0 1023

/-- `fdt->strings` has less than 1024 bytes left and is doubled. -/
def fdtGrowStrings (junk : Junk) (fdt : Fdt) : Fdt :=
  if sub32 fdt.strings.length fdt.strNextofs < 1024 then
    { fdt with
      strings := realloc (junk (fdt.dtReallocs + fdt.strReallocs)) (fdt.strings.length * 2 % 2 ^ 32) fdt.strings
      strReallocs := fdt.strReallocs + 1 }
  else fdt

/-- `fdt->dt` has less than 1024 bytes and the property's left and is doubled. -/
def fdtGrowDt (junk : Junk) (fdt : Fdt) (dtsize : Nat) : Fdt :=
  if sub32 fdt.dt.length fdt.dtNextofs < 1024 + dtsize then
    { fdt with
      dt := realloc (junk (fdt.dtReallocs + fdt.strReallocs)) (fdt.dt.length * 2 % 2 ^ 32) fdt.dt
      dtReallocs := fdt.dtReallocs + 1 }
  else fdt

/-- `fdt_ensure_space` -/
def fdtEnsureSpace (junk : Junk) (fdt : Fdt) (dtsize : Nat) : Fdt × Int :=
  let fdt := fdtGrowStrings junk fdt
  if fdt.strings = [] then (fdt, -ENOMEM)
  else
    let fdt := fdtGrowDt junk fdt dtsize
    if fdt.dt = [] then (fdt, -ENOMEM) else (fdt, 0)

/-- `dt_add_string` -/
def dtAddString (junk : Junk) (fdt : Fdt) (str : CString) : Fdt × Option Int :=
  let (fdt, ret) := fdtEnsureSpace junk fdt 0
  if ret < 0 then (fdt, some (-ENOMEM))
  else
    match lstrcpy fdt.strings fdt.strNextofs str with
    | none => (fdt, none)
    | some (strings, len) =>
      if len < 0 then ({ fdt with strings := strings }, some (-ENOSPC))
      else
        ({ fdt with strings := strings, strNextofs := (fdt.strNextofs + len.toNat + 1) % 2 ^ 32 },
          some (cInt fdt.strNextofs))

/-- `cpu_to_fdt32` of an `int`. -/
def fdt32 (x : Int) : Bytes := beBytes 4 (x % 2 ^ 32).toNat

/-- The begin of a node in `__of_flatten_dtb`. The length of the name is an
`unsigned int`, also where `lstrcpy` fails. -/
def flattenBeginNode (junk : Junk) (name : CString) (fdt : Fdt) : Fdt × Option Int :=
  let (fdt, ret) := fdtEnsureSpace junk fdt 0
  if ret < 0 then (fdt, some (-ENOMEM))
  else
    match fdt.write fdt.dtNextofs (fdt32 fdtBeginNode) with
    | none => (fdt, none)
    | some fdt =>
      match lstrcpy fdt.dt (fdt.dtNextofs + 4) name with
      | none => (fdt, none)
      | some (dt, len) =>
        ({ fdt with dt := dt, dtNextofs := dtNextOfs fdt.dtNextofs (4 + (len % 2 ^ 32).toNat + 1) }, some 0)

/-- A property: its name offset and its data go to where `fp` pointed to before
`dt_add_string`. -/
def flattenProperty (junk : Junk) (p : Property) (fdt : Fdt) : Fdt × Option Int :=
  let (fdt, ret) := fdtEnsureSpace junk fdt p.value.length
  if ret < 0 then (fdt, some (-ENOMEM))
  else
    match fdt.write fdt.dtNextofs (fdt32 fdtProp ++ fdt32 p.value.length) with
    | none => (fdt, none)
    | some fdt =>
      let reallocs := fdt.dtReallocs
      match dtAddString junk fdt p.name with
      | (fdt, none) => (fdt, none)
      | (fdt, some nameoff) =>
        if fdt.dtReallocs ≠ reallocs then (fdt, none)
        else
          match fdt.write (fdt.dtNextofs + 8) (fdt32 nameoff ++ p.value) with
          | none => (fdt, none)
          | some fdt => ({ fdt with dtNextofs := dtNextOfs fdt.dtNextofs (12 + p.value.length) }, some 0)

/-- `k` after a call that returned 0; anything else is returned. -/
def andThen (r : Fdt × Option Int) (k : Fdt → Fdt × Option Int) : Fdt × Option Int :=
  match r with
  | (fdt, some 0) => k fdt
  | r => r

def flattenProperties (junk : Junk) : List Property → Fdt → Fdt × Option Int
  | [], fdt => (fdt, some 0)
  | p :: properties, fdt => andThen (flattenProperty junk p fdt) (flattenProperties junk properties)

/-- The end of a node. -/
def flattenEndNode (junk : Junk) (fdt : Fdt) : Fdt × Option Int :=
  match fdt.write fdt.dtNextofs (fdt32 fdtEndNode) with
  | none => (fdt, none)
  | some fdt =>
    let (fdt, ret) := fdtEnsureSpace junk { fdt with dtNextofs := dtNextOfs fdt.dtNextofs 4 } 0
    if ret < 0 then (fdt, some (-ENOMEM)) else (fdt, some 0)

mutual
/-- `__of_flatten_dtb` -/
def flattenNode (junk : Junk) : DeviceNode → Fdt → Fdt × Option Int
  | .node name _ properties children, fdt =>
    andThen (flattenBeginNode junk name fdt) fun fdt =>
      andThen (flattenProperties junk properties fdt) fun fdt =>
        andThen (flattenNodes junk children fdt) (flattenEndNode junk)

/-- Its loop over the children. -/
def flattenNodes (junk : Junk) : List DeviceNode → Fdt → Fdt × Option Int
  | [], fdt => (fdt, some 0)
  | node :: nodes, fdt => andThen (flattenNode junk node fdt) (flattenNodes junk nodes)
end

/-- What `of_flatten_dtb` starts with: the structure block begins behind the
header and the memory reservations. -/
def Fdt.start : Fdt := ⟨List.replicate fdtBufsize 0, 40 + 16 * 16, List.replicate fdtBufsize 0, 0, 0, 0⟩

/-- The header that is written last. -/
def flattenHeader (dtNextofs strNextofs : Nat) : Bytes :=
  [fdtMagic, (dtNextofs + strNextofs) % 2 ^ 32, 40 + 16 * 16, dtNextofs, 40, 17, 16, 0, strNextofs,
    sub32 dtNextofs (40 + 16 * 16)].flatMap (beBytes 4)

/-- The end of `of_flatten_dtb`: `FDT_END`, the strings and the header. -/
def flattenFinish (junk : Junk) (fdt : Fdt) : Option (Option Bytes) :=
  match fdt.write fdt.dtNextofs (fdt32 fdtEnd) with
  | none => none
  | some fdt =>
    let ofs := dtNextOfs fdt.dtNextofs 4
    let dt :=
      if sub32 fdt.dt.length ofs < fdt.strNextofs then
        realloc (junk (fdt.dtReallocs + fdt.strReallocs)) ((ofs + fdt.strNextofs) % 2 ^ 32) fdt.dt
      else fdt.dt
    if dt = [] then some none
    else if fdt.strNextofs ≤ fdt.strings.length ∧ ofs + fdt.strNextofs ≤ dt.length ∧ 40 ≤ dt.length then
      some (some (splice 0 (flattenHeader ofs fdt.strNextofs) (splice ofs (fdt.strings.take fdt.strNextofs) dt)))
    else none

/-- `of_flatten_dtb`: `NULL` or the buffer. -/
def ofFlattenDtb (junk : Junk) (node : DeviceNode) : Option (Option Bytes) :=
  match flattenNode junk node .start with
  | (_, none) => none
  | (fdt, some ret) => if ret ≠ 0 then some none else flattenFinish junk fdt

/-- `fdt_ensure_space` never grows a buffer. -/
def NeverGrows (junk : Junk) (node : DeviceNode) : Prop :=
  (flattenNode junk node .start).1.dtReallocs = 0 ∧ (flattenNode junk node .start).1.strReallocs = 0

end DtUtils
