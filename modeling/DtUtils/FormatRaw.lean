/-
`backend_format_raw.c`: a 16-byte header with two checksums, the variables'
raw bytes at their positions, and an HMAC over both if the state has an
`algo`.

The digest is a parameter: what the driver sees of `digest.c`, `hmac.c` and the
keystore are a length, a return value of setting it up, and a function of the
message. `none` results are accesses outside an object.
-/
import DtUtils.Crc
import DtUtils.Variables
import DtUtils.Storage

namespace DtUtils
open Lib

/-- A keyed digest. -/
structure Digest where
  /-- `digest_length` -/
  length : Nat
  /-- What `keystore_get_secret`, `digest_set_key` and `digest_init` come to. -/
  ready : Int
  /-- `digest_final` after `digest_update`s with the message. -/
  mac : Bytes → Bytes
  mac_length : ∀ m, (mac m).length = length
  /-- The longest is SHA-512. -/
  length_le : length ≤ 64

/-- `struct state_backend_format_raw` -/
structure RawFormat where
  /-- The `algo`, and what `digest_alloc` finds under its name. -/
  algo : Option (Option Digest)
  digest : Option Digest
  same : ∀ d, digest = some d → algo = some (some d)

/-- `backend_format_raw_create` -/
def backendFormatRawCreate (algo : Option (Option Digest)) : RawFormat := ⟨algo, none, by simp⟩

/-- `raw->digest_length` -/
def RawFormat.digestLength (raw : RawFormat) : Nat :=
  match raw.digest with
  | none => 0
  | some d => d.length

/-- `backend_raw_digest_init` -/
def backendRawDigestInit (raw : RawFormat) : RawFormat × Int :=
  match h : raw.algo with
  | some (some d) => ({ raw with digest := some d, same := by rintro _ ⟨⟩; exact h }, d.ready)
  | _ => (raw, -ENODEV)

/-- `sizeof(struct backend_raw_header)` -/
abbrev formatRawMinLength : Nat := 16

/-- `struct backend_raw_header` -/
structure BackendRawHeader where
  magic : Nat
  reserved : Nat
  dataLen : Nat
  dataCrc : Nat
  headerCrc : Nat
deriving DecidableEq

def BackendRawHeader.parse (buf : Bytes) : BackendRawHeader where
  magic := leNat (slice 0 4 buf)
  reserved := leNat (slice 4 2 buf)
  dataLen := leNat (slice 6 2 buf)
  dataCrc := leNat (slice 8 4 buf)
  headerCrc := leNat (slice 12 4 buf)

/-- The header's first twelve bytes, which `header_crc` covers. -/
def BackendRawHeader.covered (h : BackendRawHeader) : Bytes :=
  leBytes 4 h.magic ++ leBytes 2 h.reserved ++ leBytes 2 h.dataLen ++ leBytes 4 h.dataCrc

def BackendRawHeader.bytes (h : BackendRawHeader) : Bytes := h.covered ++ leBytes 4 h.headerCrc

/-- `d_len` -/
def authLength : Option Digest → Nat
  | none => 0
  | some d => d.length

/-- `digest_update` over header and data, and `digest_verify` with the bytes
behind them. -/
def hmacMatches (auth : Option Digest) (buf : Bytes) (lenp : Nat) : Bool :=
  match auth with
  | none => true
  | some d => decide (d.mac (buf.take lenp) = slice lenp d.length buf)

/-- What is left of `backend_format_raw_verify` once the header is accepted
and the digest is set up; `auth` is the digest to verify with, if any. -/
def backendFormatRawVerifyData (auth : Option Digest) (buf : Bytes) (len : Int) : Option (Int × Int) :=
  let header := BackendRawHeader.parse buf
  let completeLen := header.dataLen + authLength auth + formatRawMinLength
  if (completeLen : Int) > len then some (-EINVAL, len)
  else if buf.length < completeLen then none
  else if (crc32 0 (slice formatRawMinLength header.dataLen buf)).toNat ≠ header.dataCrc then some (-EINVAL, len)
  else
    -- `*lenp` is set before the HMAC is looked at.
    let lenp := header.dataLen + formatRawMinLength
    some (if hmacMatches auth buf lenp then 0 else -EINVAL, lenp)

/-- `backend_format_raw_verify`; `noAuth` is `STATE_FLAG_NO_AUTHENTICATION`. -/
def backendFormatRawVerify (magic : UInt32) (noAuth : Bool) : Verify RawFormat := fun raw buf len =>
  if len < formatRawMinLength then some (raw, -EINVAL, len)
  else if buf.length < formatRawMinLength then none
  else
    let header := BackendRawHeader.parse buf
    if (crc32 0 (buf.take 12)).toNat ≠ header.headerCrc then some (raw, -EINVAL, len)
    else if magic ≠ 0 ∧ magic.toNat ≠ header.magic then some (raw, -EINVAL, len)
    else if raw.algo.isSome ∧ noAuth = false then
      let (raw, ret) := backendRawDigestInit raw
      if ret ≠ 0 then some (raw, ret, len)
      else (backendFormatRawVerifyData raw.digest buf len).map fun r => (raw, r)
    else (backendFormatRawVerifyData none buf len).map fun r => (raw, r)

/-- `backend_format_raw_unpack`: the variables afterwards and the return
value. -/
def backendFormatRawUnpack (buf : Bytes) : List StateVariable → Option (List StateVariable × Int)
  | [] => some ([], 0)
  | sv :: vars => do
    let header := BackendRawHeader.parse buf
    let (vars, ret) ← backendFormatRawUnpack buf vars
    if header.dataLen < sv.endPos then return (sv :: vars, -ENOSPC)
    else
      let raw := slice (formatRawMinLength + sv.start.toNat) sv.size buf
      if raw.length < sv.size then none else return ({ sv with data := sv.data.setRaw raw } :: vars, ret)

/-- The loop of `backend_format_raw_pack` that copies the variables into the
buffer behind the header. -/
def rawPackData : List StateVariable → Bytes → Option Bytes
  | [], data => some data
  | sv :: vars, data =>
    if sv.size ≠ 0 ∧ data.length < sv.start.toNat + sv.size then none
    else rawPackData vars (splice sv.start.toNat sv.raw data)

/-- The header of `sizeData` bytes of data. -/
def rawPackHeader (magic : UInt32) (sizeData : Nat) (data : Bytes) : BackendRawHeader :=
  let header : BackendRawHeader :=
    { magic := magic.toNat, reserved := 0, dataLen := sizeData % 2 ^ 16,
      dataCrc := (crc32 0 (data.take sizeData)).toNat, headerCrc := 0 }
  { header with headerCrc := (crc32 0 header.covered).toNat }

/-- The part of `backend_format_raw_pack` behind the digest's setup. -/
def backendFormatRawPackData (magic : UInt32) (raw : RawFormat) (vars : List StateVariable) : Option Bytes := do
  let last ← vars.getLast?
  let sizeData := last.endPos
  let sizeFull := (sizeData + formatRawMinLength + raw.digestLength) % 2 ^ 32
  let data ← rawPackData vars (List.replicate (sizeFull - formatRawMinLength) 0)
  if sizeFull < formatRawMinLength + sizeData then none
  else
    let buf := (rawPackHeader magic sizeData data).bytes ++ data
    -- A digest was set up exactly if there is an `algo`.
    match raw.digest with
    | some d => some (splice (formatRawMinLength + sizeData) (d.mac (buf.take (formatRawMinLength + sizeData))) buf)
    | none => some buf

/-- `backend_format_raw_pack`: the format afterwards, and the return value or
the packed buffer. -/
def backendFormatRawPack (magic : UInt32) (raw : RawFormat) (vars : List StateVariable) :
    Option (RawFormat × Except Int Bytes) :=
  if raw.algo.isSome then
    let (raw, ret) := backendRawDigestInit raw
    if ret ≠ 0 then some (raw, .error ret)
    else (backendFormatRawPackData magic raw vars).map fun buf => (raw, .ok buf)
  else (backendFormatRawPackData magic raw vars).map fun buf => (raw, .ok buf)

end DtUtils
