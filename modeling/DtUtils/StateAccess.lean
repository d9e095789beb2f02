/-
`state_save`, `state_do_load` and `state_new_from_node` of `state.c`, for any
format and any buckets, and the sequences of calls a process makes on one
state. A memory fault stops the process, which then makes no further calls.
-/
import DtUtils.Buckets
import DtUtils.FormatRaw
import DtUtils.Lib.Run
import DtUtils.Values

namespace DtUtils
open Lib

/-- `struct state_backend_format`, whose own state is an `F`. -/
structure Format (F : Type) where
  /-- For a magic, and with or without `STATE_FLAG_NO_AUTHENTICATION`. -/
  verify : UInt32 → Bool → Verify F
  /-- The variables afterwards and the return value. -/
  unpack : F → StateData → Bytes → Int → Option (F × List StateVariable × Int)
  pack : F → StateData → Option (F × Except Int Bytes)

def rawFormat : Format RawFormat where
  verify := backendFormatRawVerify
  unpack raw s buf _ := (backendFormatRawUnpack buf s.vars).map fun (vars, ret) => (raw, vars, ret)
  pack raw s := backendFormatRawPack s.magic raw s.vars

@[simp] theorem rawFormat_verify (magic : UInt32) (noAuth : Bool) :
    rawFormat.verify magic noAuth = backendFormatRawVerify magic noAuth := rfl

@[simp] theorem rawFormat_unpack (raw : RawFormat) (s : StateData) (buf : Bytes) (len : Int) :
    rawFormat.unpack raw s buf len = (backendFormatRawUnpack buf s.vars).map fun (vars, ret) => (raw, vars, ret) := rfl

@[simp] theorem rawFormat_pack (raw : RawFormat) (s : StateData) :
    rawFormat.pack raw s = backendFormatRawPack s.magic raw s.vars := rfl

/-- A driver and the `wrong_magic` of its buckets. -/
structure Backend (B : Type) extends Driver B where
  wrongMagic : B → Bool

def directBackend : Backend BucketDirect := { directDriver with wrongMagic := BucketDirect.wrongMagic }

def bucketBackend : Backend Bucket where
  toDriver := bucketDriver
  wrongMagic
    | .direct d => d.wrongMagic
    | .circular c => c.wrongMagic

/-- `struct state` -/
structure State (F B : Type) where
  data : StateData
  format : F
  storage : Storage B
  dirty : Bool
  keepPrevContent : Bool

section
variable {F B : Type} (fmt : Format F) (d : Backend B)

/-- The part of `state_save` behind the packing. -/
def stateSaveBuf (env : Env) (st : State F B) (buf : Bytes) : Env × State F B × Int :=
  if st.keepPrevContent ∧ st.storage.buckets.any fun b => d.wrongMagic b.priv then (env, st, -EPERM)
  else
    let (env, storage, ret, _) := stateStorageWrite d.toDriver env st.storage buf
    (env, { st with storage := storage, dirty := if ret ≠ 0 then st.dirty else false }, ret)

/-- `state_save` -/
def stateSave (env : Env) (st : State F B) : Env × State F B × Int :=
  if st.dirty = false then (env, st, 0)
  else
    match fmt.pack st.format st.data with
    | none => (env.crash, st, -EFAULT)
    | some (f, .error e) => (env, { st with format := f }, e)
    | some (f, .ok buf) => stateSaveBuf d env { st with format := f } buf

/-- The part of `state_do_load` behind the reading. -/
def stateUnpack (env : Env) (st : State F B) (buf : Bytes) (len : Int) : Env × State F B × Int :=
  match fmt.unpack st.format st.data buf len with
  | none => (env.crash, st, -EFAULT)
  | some (f, vars, ret) =>
    (env, { st with format := f, data := { st.data with vars := vars }, dirty := decide (ret ≠ 0) }, ret)

/-- `state_do_load` -/
def stateDoLoad (noAuth : Bool) (env : Env) (st : State F B) : Env × State F B × Int :=
  let r := stateStorageRead d.toDriver (fmt.verify st.data.magic noAuth) env st.format st.storage
  let st := { st with format := r.format, storage := r.storage }
  if r.ret ≠ 0 then (r.env, { st with dirty := true }, r.ret)
  else stateUnpack fmt r.env st r.buf r.len

/-- `state_load` -/
def stateLoad : Env → State F B → Env × State F B × Int := stateDoLoad fmt d false

/-- `state_load_no_auth` -/
def stateLoadNoAuth : Env → State F B → Env × State F B × Int := stateDoLoad fmt d true

/-- What `state_new_from_node` sets up on these buckets for a description that
`state_from_node` made `s` of. -/
def stateNew (f : F) (readonly : Bool) (s : StateData) (bs : List B) : State F B where
  data := s
  format := f
  storage := .fresh readonly bs
  dirty := true
  keepPrevContent := (ofFindProperty s.node (cstr "keep-previous-content")).isSome

/-! ## Sequences of calls -/

/-- A call on a state. -/
inductive StateCall
  | load
  | loadNoAuth
  | get (name : CString)
  | set (name val : CString)
  | save
deriving DecidableEq

/-- What a call that changes only the variables leaves. -/
def stateSetCall (env : Env) (st : State F B) (name val : CString) : Env × State F B :=
  match stateSetVar st.data.vars name val with
  | none => (env.crash, st)
  | some (vars, set, _) => (env, { st with data := { st.data with vars := vars }, dirty := set || st.dirty })

/-- One call of a process that still runs. -/
def StateCall.exec (env : Env) (st : State F B) : StateCall → Env × State F B
  | .load =>
    let (env, st, _) := stateLoad fmt d env st
    (env, st)
  | .loadNoAuth =>
    let (env, st, _) := stateLoadNoAuth fmt d env st
    (env, st)
  | .get name => if (stateGetVar st.data.vars name).isNone then (env.crash, st) else (env, st)
  | .set name val => stateSetCall env st name val
  | .save =>
    let (env, st, _) := stateSave fmt d env st
    (env, st)

/-- The calls of a process that starts with `start`. -/
def stateSystem (start : Env × State F B) : System (Env × State F B) StateCall where
  init s := s = start
  step s call s' := s.1.alive = true ∧ s' = call.exec fmt d s.1 s.2

end

theorem stateSystem_step {F B : Type} {fmt : Format F} {d : Backend B} {start s : Env × State F B}
    {calls : List StateCall}
    (h : (stateSystem fmt d start).Run calls s) (halive : s.1.alive = true) (call : StateCall) :
    (stateSystem fmt d start).Run (call :: calls) (call.exec fmt d s.1 s.2) :=
  h.step ⟨halive, rfl⟩

end DtUtils
