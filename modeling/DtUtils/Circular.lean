/-
The circular bucket of `backend_bucket_circular.c`, as built for Linux: one
eraseblock in which records are appended page-aligned, each ending in a
magic and its own length, until the next one does not fit and the block is
erased. The position is not stored; `bucketCircularInit` finds it by
scanning backwards for the last page that is not erased.

`BucketCircular.block` is the eraseblock on the medium, everything else the
driver's own state. Offsets of requests are relative to the eraseblock.
-/
import DtUtils.Common

namespace DtUtils
open Lib

/-- Where a bucket lies. `state_backend_bucket_circular_create` raises the
write size to 8, an MTD device's write size divides its erase size, and
`state_storage_mtd_buckets_init` only uses eraseblocks that start below the
32-bit device size. -/
structure Geometry where
  eraseblock : Nat
  writesize : Nat
  erasesize : Nat
  le_writesize : 8 ≤ writesize
  dvd : writesize ∣ erasesize
  pos : 0 < erasesize
  erasesize_lt : erasesize < 2 ^ 32
  start_lt : eraseblock * erasesize < 2 ^ 32

/-- `struct state_backend_storage_bucket_circular`; `max_size` is the erase
size. -/
structure BucketCircular where
  geo : Geometry
  /-- Start of the free area. -/
  writeArea : Nat
  lastWrittenLength : Nat
  wrongMagic : Bool
  /-- The eraseblock's bytes. -/
  block : Bytes

def circularMagic : Nat := 0x14fa2d02

/-- `sizeof(struct state_backend_storage_bucket_circular_meta)` -/
def circularMetaSize : Nat := 8

/-- The metadata at the end of a record. -/
def circularMeta (writtenLength : Nat) : Bytes := leBytes 4 circularMagic ++ leBytes 4 writtenLength

/-- `block` with the bytes at `rel` replaced. A request outside the
eraseblock goes to other parts of the device. -/
def pebSplice (rel : Int) (data block : Bytes) : Bytes :=
  if 0 ≤ rel ∧ rel.toNat + data.length ≤ block.length then splice rel.toNat data block else block

/-- `state_mtd_peb_read` into a zeroed buffer of `len` bytes. `read(2)`
refuses a negative length, converted to `size_t`. -/
def stateMtdPebRead (env : Env) (c : BucketCircular) (suboffset len : Int) : Env × Int × Bytes :=
  let start : Int := c.geo.eraseblock * c.geo.erasesize
  let offset := cInt suboffset + start
  let len := cInt len
  if len < 0 then (env, -1, [])
  else
    let env := if env.alive then env.log (.read (offset - start) len) else env
    let (env, ret, got) := readFull env (slice (offset - start).toNat len.toNat c.block)
    let buf := got ++ List.replicate (len.toNat - got.length) 0
    if ret < 0 then (env, ret, buf) else (env, 0, buf)

/-- `state_mtd_peb_write`. The eraseblock's start is computed in 32 bits. -/
def stateMtdPebWrite (env : Env) (c : BucketCircular) (buf : Bytes) (suboffset : Int) : Env × BucketCircular × Int :=
  let start : Int := c.geo.eraseblock * c.geo.erasesize
  let offset := cInt suboffset + ((c.geo.eraseblock * c.geo.erasesize % 2 ^ 32 : Nat) : Int)
  if cInt buf.length < 0 then (env, c, -1)
  else
    let rel := offset - start
    let env := if env.alive then env.log (.program rel buf.length (slice rel.toNat buf.length c.block)) else env
    let (env, ret, taken) := writeFull env buf
    let c := { c with block := pebSplice rel taken c.block }
    if ret < 0 then (env, c, ret) else (env, c, 0)

/-- `state_mtd_peb_erase`. A failed erase leaves the block as it is; a power
loss finds it erased or not. -/
def stateMtdPebErase (env : Env) (c : BucketCircular) : Env × BucketCircular × Int :=
  let erased := { c with block := List.replicate c.geo.erasesize 0xff }
  if env.alive then
    match env.next with
    | .done => ((env.log (.erase true)).pop, erased, 0)
    | .stop _ _ => ((env.log (.erase false)).pop, c, -1)
    | .powerLoss 0 => ((env.log (.erase false)).pop.crash, c, -1)
    | .powerLoss (_ + 1) => ((env.log (.erase true)).pop.crash, erased, -1)
  else (env, c, -1)

/-- The end of `state_backend_bucket_circular_read`, after the transfer of
`readLen` bytes: the return value, `*buf_out` and `*len_out`. -/
def bucketCircularFetched (c : BucketCircular) (readLen : Int) :
    Env × Int × Bytes → Env × BucketCircular × Int × Bytes × Int
  | (env, ret, buf) =>
    if ret < 0 ∧ ret ≠ -EUCLEAN then (env, c, ret, [], 0)
    -- When reading old state there is no circular bucket metadata.
    else (env, c, ret, buf, if c.lastWrittenLength ≠ 0 then readLen - circularMetaSize else readLen)

/-- `state_backend_bucket_circular_read` -/
def bucketCircularRead (env : Env) (c : BucketCircular) : Env × BucketCircular × Int × Bytes × Int :=
  if c.writeArea = 0 then (env, c, -ENODATA, [], 0)
  else if c.lastWrittenLength = 0 then
    -- Without a length the block is read from its beginning.
    let readLen := min (c.writeArea : Int) (c.geo.erasesize - circularMetaSize)
    bucketCircularFetched { c with writeArea := 0 } readLen
      (stateMtdPebRead env { c with writeArea := 0 } 0 readLen)
  else if c.writeArea < c.lastWrittenLength ∨ c.lastWrittenLength % c.geo.writesize ≠ 0 then
    (env, { c with writeArea := 0 }, -EINVAL, [], 0)
  else
    bucketCircularFetched c c.lastWrittenLength
      (stateMtdPebRead env c (c.writeArea - c.lastWrittenLength) c.lastWrittenLength)

/-- The buffer `state_backend_bucket_circular_write` fills: the payload,
zeros, and the metadata over the last eight bytes. -/
def circularRecord (buf : Bytes) (writtenLength : Nat) : Bytes :=
  buf ++ List.replicate (writtenLength - circularMetaSize - buf.length) 0 ++ circularMeta writtenLength

/-- The record's length, a `uint32_t`. -/
def circularWrittenLength (g : Geometry) (len : Nat) : Nat :=
  roundup (len + circularMetaSize) g.writesize % 2 ^ 32

/-- The rest of `state_backend_bucket_circular_write` once the block is
erased or has room: the position is advanced before the transfer, which may
end anywhere. -/
def bucketCircularAppend (env : Env) (c : BucketCircular) (writeBuf : Bytes) : Env × BucketCircular × Int :=
  let offset := c.writeArea
  stateMtdPebWrite env { c with writeArea := c.writeArea + writeBuf.length } writeBuf offset

/-- `state_backend_bucket_circular_write` -/
def bucketCircularWrite (env : Env) (c : BucketCircular) (buf : Bytes) : Env × BucketCircular × Int :=
  let writtenLength := circularWrittenLength c.geo buf.length
  if c.geo.erasesize < writtenLength then (env, c, -E2BIG)
  -- Truncated to 32 bits the length is too short for the payload: `memcpy`
  -- writes behind the buffer.
  else if writtenLength < buf.length + circularMetaSize then (env.crash, c, -EFAULT)
  else
    let writeBuf := circularRecord buf writtenLength
    let c := if c.geo.erasesize ≤ c.writeArea + writtenLength then { c with writeArea := 0 } else c
    if c.writeArea = 0 then
      let (env, c, ret) := stateMtdPebErase env c
      if ret ≠ 0 then (env, c, ret) else bucketCircularAppend env c writeBuf
    else bucketCircularAppend env c writeBuf

/-- The loop of `state_backend_bucket_circular_init`, from `subOffset` down
to the last page that is not erased; `fuel` bounds its rounds. -/
def circularScan (buf : Bytes) (writesize : Nat) : Nat → Int → Int
  | 0, subOffset => subOffset
  | fuel + 1, subOffset =>
    if subOffset < 0 then subOffset
    else if mtdBufAllFf subOffset.toNat (buf.drop subOffset.toNat) writesize = some true then
      circularScan buf writesize fuel (subOffset - writesize)
    else subOffset

/-- The rest of `state_backend_bucket_circular_init` once the block is read. -/
def bucketCircularInitScan (c : BucketCircular) : Env × Int × Bytes → Env × BucketCircular × Int
  | (env, ret, buf) =>
    if ret ≠ 0 ∧ ret ≠ -EUCLEAN then (env, c, ret)
    else
      let ws := c.geo.writesize
      let subOffset := circularScan buf ws (c.geo.erasesize + 1) (cInt (c.geo.erasesize - ws))
      let writeArea := (subOffset + ws).toNat
      if subOffset < 0 then
        (env, { c with writeArea := writeArea, lastWrittenLength := 0 }, 0)
      else
        let magic := leNat (slice (writeArea - circularMetaSize) 4 buf)
        let length := leNat (slice (writeArea - circularMetaSize + 4) 4 buf)
        if magic ≠ circularMagic then
          let wrong := if magic ≠ 0xffffffff ∧ magic ≠ 0 then true else c.wrongMagic
          (env, { c with writeArea := writeArea, lastWrittenLength := 0, wrongMagic := wrong }, 0)
        else (env, { c with writeArea := writeArea, lastWrittenLength := length }, 0)

/-- `state_backend_bucket_circular_init` -/
def bucketCircularInit (env : Env) (c : BucketCircular) : Env × BucketCircular × Int :=
  bucketCircularInitScan c (stateMtdPebRead env c 0 c.geo.erasesize)

/-- What `state_backend_bucket_circular_create` hands out. -/
def bucketCircularCreated : Env × BucketCircular × Int → Env × Option BucketCircular
  | (env, c, ret) => if ret ≠ 0 then (env, none) else (env, some c)

/-- `state_backend_bucket_circular_create` on an eraseblock with the bytes
`block`, with the bad block test as one request of its own. -/
def bucketCircularCreate (env : Env) (g : Geometry) (block : Bytes) : Env × Option BucketCircular :=
  match env.next with
  | .stop _ _ => (env.pop, none)
  | .powerLoss _ => (env.pop.crash, none)
  | .done => bucketCircularCreated (bucketCircularInit env.pop ⟨g, 0, 0, false, block⟩)

end DtUtils
