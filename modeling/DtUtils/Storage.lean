/-
`backend_storage.c`: a list of redundant buckets. A save writes all of them
in order; a load takes the first one whose data the format verifies and
rewrites every other that differs from it.

The list is generic in the bucket driver (`Driver`) and the format's `verify`
(`Verify`). Each bucket has its own medium.
-/
import DtUtils.Common
import DtUtils.Lib.Sweep

namespace DtUtils
open Lib

/-- The `read` and `write` of a `struct state_backend_storage_bucket`. A read
returns its return value and, if it sets them, `*buf` and `*len`. -/
structure Driver (B : Type) where
  read : Env → B → Env × B × Int × Option (Bytes × Int)
  write : Env → B → Bytes → Env × B × Int

/-- The members of `struct state_backend_storage_bucket` that
`backend_storage.c` works on; a `NULL` buffer is empty. -/
structure StorageBucket (B : Type) where
  priv : B
  buf : Bytes := []
  len : Int := 0
  needsRefresh : Bool := false

/-- `struct state_backend_storage` -/
structure Storage (B : Type) where
  buckets : List (StorageBucket B)
  readonly : Bool

/-- The storage a new process sets up on these buckets. -/
def Storage.fresh {B : Type} (readonly : Bool) (bs : List B) : Storage B := ⟨bs.map fun b => { priv := b }, readonly⟩

/-- A format's `verify` for one magic and set of flags: the format's state
after the call, the return value and `*lenp`. `none` is an access outside an
object. -/
abbrev Verify (F : Type) := F → Bytes → Int → Option (F × Int × Int)

section
variable {B F : Type} (d : Driver B) (verify : Verify F)

/-! ## Writing -/

def minBucketsWritten : Nat := 1

/-- One round of the loop of `state_storage_write`. -/
def writeBucket (buf : Bytes) (env : Env) (b : StorageBucket B) : Env × StorageBucket B × Int :=
  let (env, priv, ret) := d.write env b.priv buf
  (env, { b with priv := priv }, ret)

/-- `state_storage_write`, with the return value of each bucket's write. -/
def stateStorageWrite (env : Env) (s : Storage B) (buf : Bytes) : Env × Storage B × Int × List Int :=
  if s.readonly then (env, s, 0, [])
  else
    let (env, written) := sweep (writeBucket d buf) env s.buckets
    let rets := written.map Prod.snd
    let ret := if minBucketsWritten ≤ (rets.filter (0 ≤ ·)).length then 0 else - EIO
    (env, { s with buckets := written.map Prod.fst }, ret, rets)

/-! ## Reading -/

/-- One round of the first loop of `state_storage_read`, and whether the
bucket verifies. -/
def checkBucket (s : Env × F) (b : StorageBucket B) : (Env × F) × StorageBucket B × Bool :=
  let (env, f) := s
  let (env, priv, ret, out) := d.read env b.priv
  let (buf, len) := out.getD (b.buf, b.len)
  let b := { priv := priv, buf := buf, len := len, needsRefresh := b.needsRefresh || decide (ret = -EUCLEAN) }
  if ret ≠ 0 ∧ ret ≠ -EUCLEAN then ((env, f), b, false)
  else
    match verify f b.buf b.len with
    | none => ((env.crash, f), b, false)
    | some (f, ret, len) => ((env, f), { b with len := len }, decide (ret = 0))

/-- `bucket_refresh`, with the return value of the write if there is one. A
process that was stopped writes nothing. -/
def bucketRefresh (buf : Bytes) (len : Int) (env : Env) (b : StorageBucket B) :
    Env × StorageBucket B × Option Int :=
  if env.alive ∧ (b.needsRefresh ∨ b.len ≠ len ∨ b.buf.take len.toNat ≠ buf.take len.toNat) then
    let (env, priv, ret) := d.write env b.priv (buf.take len.toNat)
    (env, { b with priv := priv, needsRefresh := if ret ≠ 0 then b.needsRefresh else false }, some ret)
  else (env, b, none)

/-- One round of the second loop of `state_storage_read`. -/
def refreshUnused (buf : Bytes) (len : Int) (env : Env) (b : StorageBucket B) :
    Env × StorageBucket B × Option Int :=
  let (env, b, r) := bucketRefresh d buf len env b
  (env, { b with buf := [], len := 0 }, r)

/-- What `state_storage_read` leaves: the return value, `*buf` and `*len`,
and for each bucket the return value of its rewrite if there was one. -/
structure ReadOutcome (B F : Type) where
  env : Env
  format : F
  storage : Storage B
  ret : Int
  buf : Bytes
  len : Int
  repairs : List (Option Int)

/-- The second half of `state_storage_read`: the bucket to use is `used`. -/
def stateStorageRefresh (env : Env) (f : F) (readonly : Bool) (front : List (StorageBucket B))
    (used : StorageBucket B) (back : List (StorageBucket B)) : ReadOutcome B F :=
  let (env, front) := sweep (refreshUnused d used.buf used.len) env front
  let (env, back) := sweep (refreshUnused d used.buf used.len) env back
  let (env, mid) := refreshUnused d used.buf used.len env used
  let all := front ++ mid :: back
  { env := env, format := f, storage := ⟨all.map Prod.fst, readonly⟩, ret := 0, buf := used.buf, len := used.len,
    repairs := all.map Prod.snd }

/-- `state_storage_read` -/
def stateStorageRead (env : Env) (f : F) (s : Storage B) : ReadOutcome B F :=
  let ((env, f), checked) := sweep (checkBucket d verify) (env, f) s.buckets
  match firstMarked checked with
  | none =>
    { env := env, format := f, storage := { s with buckets := checked.map Prod.fst }, ret := -ENOENT, buf := [],
      len := 0, repairs := [] }
  | some (front, used, back) => stateStorageRefresh d env f s.readonly front used back

end

end DtUtils
