/-
The bucket transfers down to their system calls: `read_full` and `write_full`
repeat `read(2)` and `write(2)` until everything is moved, a call fails or a
call moves nothing, and their callers only look for an error. When a bucket
operation that succeeds moved every byte says `transfers_complete_iff`.
-/
import DtUtils.Direct
import DtUtils.Circular
import DtUtils.Lib.Transfer
import Mathlib.Data.Stream.Init

namespace DtUtils
open Lib

/-! ## The loops -/

/-- What `errno` says of a call that failed. -/
abbrev Errno := { e : Nat // 0 < e }

/-- The answers to a sequence of `read(2)`: bytes, or a failure. -/
abbrev ReadAnswers := Stream' (Option Bytes)

/-- The answers to a sequence of `write(2)`: how many bytes are accepted, or a
failure. -/
abbrev WriteAnswers := Stream' (Option Nat)

/-- `MAX_RW_COUNT`: no call moves more bytes than that. -/
def maxRwCount : Nat := 0x7ffff000

/-- The loop of `read_full`, with `got` delivered so far, which `total` counts.
There are at most as many rounds as bytes. -/
def readFullLoop (insize : Nat) : Nat → ReadAnswers → Nat → Bytes → Int × Bytes
  | 0, _, _, got => (cInt insize, got)
  | fuel + 1, answers, size, got =>
    if size = 0 then (cInt insize, got)
    else
      match answers.head with
      | none => (-1, got)
      | some bytes =>
        let now := bytes.take (min size maxRwCount)
        if now = [] then (cInt got.length, got)
        else readFullLoop insize fuel answers.tail (size - now.length) (got ++ now)

/-- `read_full`: the return value, and the bytes delivered -/
def readFullCalls (answers : ReadAnswers) (size : Nat) : Int × Bytes := readFullLoop size size answers size []

/-- The loop of `write_full`, with `taken` bytes accepted so far. -/
def writeFullLoop (insize : Nat) : Nat → WriteAnswers → Nat → Nat → Int × Nat
  | 0, _, _, taken => (cInt insize, taken)
  | fuel + 1, answers, size, taken =>
    if size = 0 then (cInt insize, taken)
    else
      match answers.head with
      | none => (-1, taken)
      | some n =>
        let now := min n (min size maxRwCount)
        if now = 0 then (0, taken) else writeFullLoop insize fuel answers.tail (size - now) (taken + now)

/-- `write_full`: the return value, and how many bytes were accepted -/
def writeFullCalls (answers : WriteAnswers) (size : Nat) : Int × Nat := writeFullLoop size size answers size 0

/-- `flush`, by what becomes of `fsync` -/
def flushCall : Option Errno → Int
  | none => 0
  | some e => if (e : Int) = EINVAL then 0 else -e

/-! ## The direct bucket -/

/-- What becomes of the calls of `state_backend_bucket_direct_write`. -/
structure DirectWriteCalls where
  lseek : Option Errno
  header : WriteAnswers
  payload : WriteAnswers
  fsync : Option Errno

/-- What an operation returns, and how many bytes of the header and of the
payload were moved. -/
structure Transferred where
  ret : Int
  header : Nat
  payload : Nat
deriving DecidableEq

/-- The second half of `state_backend_bucket_direct_write`. -/
def directWritePayload (calls : DirectWriteCalls) (header len : Nat) : Transferred :=
  let (ret, taken) := writeFullCalls calls.payload len
  if ret < 0 then ⟨ret, header, taken⟩
  else if flushCall calls.fsync < 0 then ⟨flushCall calls.fsync, header, taken⟩
  else ⟨0, header, taken⟩

/-- `state_backend_bucket_direct_write` of `len` bytes -/
def directWriteCalls (d : BucketDirect) (calls : DirectWriteCalls) (len : Nat) : Transferred :=
  match calls.lseek with
  | some e => ⟨-e, 0, 0⟩
  | none =>
    if d.headRoom len then
      let (ret, taken) := writeFullCalls calls.header directMetaSize
      if ret < 0 then ⟨ret, taken, 0⟩ else directWritePayload calls taken len
    else if d.compat then directWritePayload calls 0 len
    else ⟨-EINVAL, 0, 0⟩

/-- What becomes of the calls of `state_backend_bucket_direct_read`, and what
the stack holds in the place of the header. -/
structure DirectReadCalls where
  stack : Bytes
  lseek : Option Errno
  header : ReadAnswers
  lseekBack : Option Errno
  payload : ReadAnswers

/-- The second half of `state_backend_bucket_direct_read`, with the length of
the buffer that is returned. -/
def directReadPayload (calls : DirectReadCalls) (header readLen : Nat) : Transferred × Option Nat :=
  let (ret, got) := readFullCalls calls.payload readLen
  if ret < 0 then (⟨ret, header, got.length⟩, none) else (⟨0, header, got.length⟩, some readLen)

/-- The header's bytes in memory. -/
def DirectReadCalls.headerBytes (calls : DirectReadCalls) (got : Bytes) : Bytes :=
  got ++ ((calls.stack ++ List.replicate directMetaSize 0).take directMetaSize).drop got.length

/-- `state_backend_bucket_direct_read` -/
def directReadCalls (d : BucketDirect) (calls : DirectReadCalls) : BucketDirect × Transferred × Option Nat :=
  match calls.lseek with
  | some e => (d, ⟨-e, 0, 0⟩, none)
  | none =>
    let (ret, got) := readFullCalls calls.header directMetaSize
    if ret < 0 then (d, ⟨ret, got.length, 0⟩, none)
    else
      let header := calls.headerBytes got
      let magic := leNat (header.take 4)
      let readLen := leNat (slice 4 4 header)
      if magic = directMagic then
        if d.maxSize < readLen then (d, ⟨-EINVAL, got.length, 0⟩, none)
        else (d, directReadPayload calls got.length readLen)
      else
        let d := d.noteMagic magic
        if d.compat then
          match calls.lseekBack with
          | some e => (d, ⟨-e, got.length, 0⟩, none)
          | none => (d, directReadPayload calls got.length d.maxSize)
        else (d, ⟨-EINVAL, got.length, 0⟩, none)

/-! ## The circular bucket -/

/-- `state_mtd_peb_read`. A negative length is none that `read(2)` takes. -/
def pebReadCalls (lseek : Option Errno) (answers : ReadAnswers) (len : Int) : Int × Bytes :=
  match lseek with
  | some e => (-e, [])
  | none =>
    let len := cInt len
    if len < 0 then (-1, [])
    else
      let (ret, got) := readFullCalls answers len.toNat
      if ret < 0 then (ret, got) else (0, got)

/-- `state_mtd_peb_write`; what becomes of its `flush` is not looked at. -/
def pebWriteCalls (lseek : Option Errno) (answers : WriteAnswers) (len : Int) : Int × Nat :=
  match lseek with
  | some e => (-e, 0)
  | none =>
    let len := cInt len
    if len < 0 then (-1, 0)
    else
      let (ret, taken) := writeFullCalls answers len.toNat
      if ret < 0 then (ret, taken) else (0, taken)

/-- The end of `state_backend_bucket_circular_read`. -/
def circularReadRecord (c : BucketCircular) (lseek : Option Errno) (answers : ReadAnswers) (readLen : Nat) :
    BucketCircular × Transferred × Option Nat :=
  let (ret, got) := pebReadCalls lseek answers readLen
  if ret < 0 ∧ ret ≠ -EUCLEAN then (c, ⟨ret, 0, got.length⟩, none) else (c, ⟨ret, 0, got.length⟩, some readLen)

/-- `state_backend_bucket_circular_read`; the buffer that is returned includes
the record's header. -/
def circularReadCalls (c : BucketCircular) (lseek : Option Errno) (answers : ReadAnswers) :
    BucketCircular × Transferred × Option Nat :=
  if c.writeArea = 0 then (c, ⟨-ENODATA, 0, 0⟩, none)
  else if c.lastWrittenLength = 0 then
    let readLen := min c.writeArea (c.geo.erasesize - circularMetaSize)
    circularReadRecord { c with writeArea := 0 } lseek answers readLen
  else if c.writeArea < c.lastWrittenLength ∨ c.lastWrittenLength % c.geo.writesize ≠ 0 then
    ({ c with writeArea := 0 }, ⟨-EINVAL, 0, 0⟩, none)
  else circularReadRecord c lseek answers c.lastWrittenLength

/-- The end of `state_backend_bucket_circular_write`. -/
def circularWriteRecord (c : BucketCircular) (lseek : Option Errno) (answers : WriteAnswers) (writtenLength : Nat) :
    BucketCircular × Transferred :=
  let (ret, taken) := pebWriteCalls lseek answers writtenLength
  ({ c with writeArea := c.writeArea + writtenLength }, ⟨ret, 0, taken⟩)

/-- `state_backend_bucket_circular_write` of `len` bytes; the record includes its
header. `none` is a write behind the record's buffer. -/
def circularWriteCalls (c : BucketCircular) (erase : Int) (lseek : Option Errno) (answers : WriteAnswers) (len : Nat) :
    Option (BucketCircular × Transferred) :=
  let writtenLength := circularWrittenLength c.geo len
  if c.geo.erasesize < writtenLength then some (c, ⟨-E2BIG, 0, 0⟩)
  else if writtenLength < len + circularMetaSize then none
  else
    let c := if c.geo.erasesize ≤ c.writeArea + writtenLength then { c with writeArea := 0 } else c
    if c.writeArea = 0 ∧ erase ≠ 0 then some (c, ⟨erase, 0, 0⟩)
    else some (circularWriteRecord c lseek answers writtenLength)

/-! ## What the answers say -/

/-- How many bytes are delivered. -/
def ReadAnswers.counts (answers : ReadAnswers) : Stream' (Option Nat) := answers.map (Option.map List.length)

/-- A call moves nothing although there are bytes left. -/
def Stalls (answers : Stream' (Option Nat)) (size : Nat) : Prop :=
  ∃ moved, Transfer maxRwCount answers size moved .stalled

/-- A call of `write_full` fails, or an `int` does not hold what it returns. -/
def WriteFails (answers : WriteAnswers) (size : Nat) : Prop :=
  ∃ moved e, Transfer maxRwCount answers size moved e ∧ (e = .failed ∨ e = .complete ∧ cInt size < 0)

/-- A call of `read_full` fails, or an `int` does not hold what it returns. -/
def ReadFails (answers : ReadAnswers) (size : Nat) : Prop :=
  ∃ moved e, Transfer maxRwCount answers.counts size moved e ∧ (e = .failed ∨ cInt moved < 0)

/-- Neither the header's transfer stalls, if there is one, nor the payload's; or
something fails. -/
def DirectWriteFits (d : BucketDirect) (calls : DirectWriteCalls) (len : Nat) : Prop :=
  calls.lseek ≠ none ∨ flushCall calls.fsync < 0 ∨ WriteFails calls.payload len ∨
    if d.headRoom len then
      WriteFails calls.header directMetaSize ∨ ¬ Stalls calls.header directMetaSize ∧ ¬ Stalls calls.payload len
    else d.compat = false ∨ ¬ Stalls calls.payload len

/-- The length that the header leads to, if it is not refused. -/
def BucketDirect.readLen (d : BucketDirect) (header : Bytes) : Option Nat :=
  if leNat (header.take 4) = directMagic then
    if d.maxSize < leNat (slice 4 4 header) then none else some (leNat (slice 4 4 header))
  else if d.compat then some d.maxSize else none

/-- Neither the header's transfer stalls nor that of the bytes it leads to; or
something fails. -/
def DirectReadFits (d : BucketDirect) (calls : DirectReadCalls) : Prop :=
  calls.lseek ≠ none ∨ ReadFails calls.header directMetaSize ∨
    ∀ header, header = calls.headerBytes (readFullCalls calls.header directMetaSize).2 →
      ∀ len ∈ d.readLen header, leNat (header.take 4) ≠ directMagic ∧ calls.lseekBack ≠ none ∨
        ReadFails calls.payload len ∨
        ¬ Stalls calls.header.counts directMetaSize ∧ ¬ Stalls calls.payload.counts len

/-- The length of a record, if there is one. -/
def BucketCircular.readLen (c : BucketCircular) : Option Nat :=
  if c.writeArea = 0 then none
  else if c.lastWrittenLength = 0 then some (min c.writeArea (c.geo.erasesize - circularMetaSize))
  else if c.writeArea < c.lastWrittenLength ∨ c.lastWrittenLength % c.geo.writesize ≠ 0 then none
  else some c.lastWrittenLength

/-- The transfer of the record, whose length is an `int`, does not stall, or
something fails. -/
def CircularReadFits (c : BucketCircular) (lseek : Option Errno) (answers : ReadAnswers) : Prop :=
  lseek ≠ none ∨ ∀ len ∈ c.readLen, cInt len < 0 ∨ ReadFails answers (cInt len).toNat ∨
    cInt len = len ∧ ¬ Stalls answers.counts len

/-- The record does not fit, or the eraseblock is to be erased and cannot be, or
its transfer does not stall. -/
def CircularWriteFits (c : BucketCircular) (erase : Int) (lseek : Option Errno) (answers : WriteAnswers) (len : Nat) :
    Prop :=
  c.geo.erasesize < circularWrittenLength c.geo len ∨ circularWrittenLength c.geo len < len + circularMetaSize ∨
    (c.geo.erasesize ≤ c.writeArea + circularWrittenLength c.geo len ∨ c.writeArea = 0) ∧ erase ≠ 0 ∨
    lseek ≠ none ∨ cInt (circularWrittenLength c.geo len) < 0 ∨ ¬ Stalls answers (circularWrittenLength c.geo len)

/-! ## How the loops end -/

section
variable {answers : Stream' (Option Nat)} {reads : ReadAnswers} {size moved : Nat} {e : TransferEnd}

theorem maxRwCount_pos : 0 < maxRwCount := by decide

/-- What `write_full` returns for `insize` bytes. -/
def writeFullRet (insize : Nat) : TransferEnd → Int
  | .complete => cInt insize
  | .stalled => 0
  | .failed => -1

/-- What `read_full` returns for `insize` bytes if it counted `total`. -/
def readFullRet (insize total : Nat) : TransferEnd → Int
  | .complete => cInt insize
  | .stalled => cInt total
  | .failed => -1

theorem writeFullLoop_transfer {insize : Nat} (h : Transfer maxRwCount answers size moved e) :
    ∀ {fuel taken : Nat}, size ≤ fuel → writeFullLoop insize fuel answers size taken =
      (writeFullRet insize e, taken + moved) := by
  induction h with
  | complete =>
    intro fuel taken _
    cases fuel with
    | zero => rfl
    | succ fuel => rfl
  | stalled hsize hhead =>
    intro fuel taken hfuel
    obtain ⟨fuel, rfl⟩ : ∃ n, fuel = n + 1 := ⟨fuel - 1, by omega⟩
    rw [writeFullLoop, if_neg hsize.ne', hhead]
    simp [writeFullRet]
  | failed hsize hhead =>
    intro fuel taken hfuel
    obtain ⟨fuel, rfl⟩ : ∃ n, fuel = n + 1 := ⟨fuel - 1, by omega⟩
    rw [writeFullLoop, if_neg hsize.ne', hhead]
    rfl
  | @step answers size n moved e hsize hhead hpos _ ih =>
    intro fuel taken hfuel
    obtain ⟨fuel, rfl⟩ : ∃ n, fuel = n + 1 := ⟨fuel - 1, by omega⟩
    have hmoved : 0 < movedAtOnce maxRwCount n size := (movedAtOnce_pos maxRwCount_pos hsize).2 hpos
    have hrest := @ih fuel (taken + movedAtOnce maxRwCount n size) (by omega)
    rw [writeFullLoop, if_neg hsize.ne', hhead]
    dsimp only
    rw [← movedAtOnce, if_neg hmoved.ne', hrest, Nat.add_assoc]

theorem readFullLoop_transfer {insize : Nat} (h : Transfer maxRwCount answers size moved e) :
    ∀ {fuel : Nat} {reads : ReadAnswers} {got : Bytes}, reads.counts = answers → size ≤ fuel →
      ∃ bytes, bytes.length = moved ∧ readFullLoop insize fuel reads size got =
        (readFullRet insize (got.length + moved) e, got ++ bytes) := by
  have hhead : ∀ reads : ReadAnswers, reads.counts.head = reads.head.map List.length := fun _ => rfl
  induction h with
  | complete =>
    intro fuel reads got _ _
    refine ⟨[], rfl, ?_⟩
    rw [List.append_nil]
    cases fuel with
    | zero => rfl
    | succ fuel => rfl
  | stalled hsize hstall =>
    intro fuel reads got hcounts hfuel
    obtain ⟨fuel, rfl⟩ : ∃ n, fuel = n + 1 := ⟨fuel - 1, by omega⟩
    rw [← hcounts, hhead, Option.map_eq_some_iff] at hstall
    obtain ⟨bytes, hbytes, hempty⟩ := hstall
    rw [List.length_eq_zero_iff] at hempty
    refine ⟨[], rfl, ?_⟩
    rw [readFullLoop, if_neg hsize.ne', hbytes, hempty]
    simp [readFullRet]
  | failed hsize hfail =>
    intro fuel reads got hcounts hfuel
    obtain ⟨fuel, rfl⟩ : ∃ n, fuel = n + 1 := ⟨fuel - 1, by omega⟩
    rw [← hcounts, hhead, Option.map_eq_none_iff] at hfail
    refine ⟨[], rfl, ?_⟩
    rw [readFullLoop, if_neg hsize.ne', hfail, List.append_nil]
    rfl
  | @step answers size n moved e hsize hstep hpos _ ih =>
    intro fuel reads got hcounts hfuel
    obtain ⟨fuel, rfl⟩ : ∃ n, fuel = n + 1 := ⟨fuel - 1, by omega⟩
    have hmoved : 0 < movedAtOnce maxRwCount n size := (movedAtOnce_pos maxRwCount_pos hsize).2 hpos
    rw [← hcounts, hhead, Option.map_eq_some_iff] at hstep
    obtain ⟨bytes, hbytes, rfl⟩ := hstep
    have hnow : (bytes.take (min size maxRwCount)).length = movedAtOnce maxRwCount bytes.length size := by
      rw [List.length_take, movedAtOnce, Nat.min_comm]
    have hne : bytes.take (min size maxRwCount) ≠ [] := by
      rw [← List.length_pos_iff, hnow]
      exact hmoved
    have htail : ReadAnswers.counts reads.tail = answers.tail := hcounts ▸ rfl
    obtain ⟨rest, hlen, hrest⟩ := @ih fuel reads.tail (got ++ bytes.take (min size maxRwCount)) htail (by omega)
    refine ⟨bytes.take (min size maxRwCount) ++ rest, by rw [List.length_append, hnow, hlen], ?_⟩
    rw [readFullLoop, if_neg hsize.ne', hbytes]
    dsimp only
    rw [if_neg hne, hnow, hrest, List.append_assoc, List.length_append, hnow, Nat.add_assoc]

theorem writeFullCalls_transfer (h : Transfer maxRwCount answers size moved e) :
    writeFullCalls answers size = (writeFullRet size e, moved) := by
  rw [writeFullCalls, writeFullLoop_transfer h (le_refl size), Nat.zero_add]

theorem readFullCalls_transfer (h : Transfer maxRwCount reads.counts size moved e) :
    (readFullCalls reads size).1 = (if e = .failed then -1 else cInt moved) ∧
      (readFullCalls reads size).2.length = moved := by
  obtain ⟨bytes, hlen, heq⟩ := @readFullLoop_transfer _ size moved e size h size reads [] rfl (le_refl size)
  rw [readFullCalls, heq, List.nil_append]
  refine ⟨?_, hlen⟩
  cases e with
  | complete =>
    rw [h.moved_eq_iff.2.2 rfl, if_neg (by decide)]
    rfl
  | stalled =>
    rw [List.length_nil, Nat.zero_add, if_neg (by decide)]
    rfl
  | failed => rfl

theorem writeFullCalls_neg : (writeFullCalls answers size).1 < 0 ↔ WriteFails answers size := by
  obtain ⟨moved, e, h⟩ := exists_transfer maxRwCount_pos answers size
  have hfails : WriteFails answers size ↔ e = .failed ∨ e = .complete ∧ cInt size < 0 := by
    constructor
    · intro hfails
      obtain ⟨moved', e', h', hfail⟩ := hfails
      exact (h.unique h').2 ▸ hfail
    · exact fun hfail => ⟨moved, e, h, hfail⟩
  rw [writeFullCalls_transfer h, hfails]
  cases e with
  | complete => simp [writeFullRet]
  | stalled => simp [writeFullRet]
  | failed => simp [writeFullRet]

theorem readFullCalls_neg : (readFullCalls reads size).1 < 0 ↔ ReadFails reads size := by
  obtain ⟨moved, e, h⟩ := exists_transfer maxRwCount_pos reads.counts size
  have hfails : ReadFails reads size ↔ e = .failed ∨ cInt moved < 0 := by
    constructor
    · intro hfails
      obtain ⟨moved', e', h', hfail⟩ := hfails
      obtain ⟨hm, he⟩ := h.unique h'
      exact hm ▸ he ▸ hfail
    · exact fun hfail => ⟨moved, e, h, hfail⟩
  rw [(readFullCalls_transfer h).1, hfails]
  split
  · next he => simp [he]
  · next he => simp [he]

/-- Without an error everything is moved if and only if no call moves nothing. -/
theorem writeFullCalls_complete (hfails : ¬ WriteFails answers size) :
    (writeFullCalls answers size).2 = size ↔ ¬ Stalls answers size := by
  obtain ⟨moved, e, h⟩ := exists_transfer maxRwCount_pos answers size
  rw [writeFullCalls_transfer h, h.moved_eq_iff.2]
  constructor
  · intro he hstalls
    obtain ⟨moved', h'⟩ := hstalls
    cases (h.unique h').2.trans he
  · intro hstalls
    cases e with
    | complete => rfl
    | stalled => exact absurd ⟨moved, h⟩ hstalls
    | failed => exact absurd ⟨moved, _, h, .inl rfl⟩ hfails

theorem readFullCalls_complete (hfails : ¬ ReadFails reads size) :
    (readFullCalls reads size).2.length = size ↔ ¬ Stalls reads.counts size := by
  obtain ⟨moved, e, h⟩ := exists_transfer maxRwCount_pos reads.counts size
  rw [(readFullCalls_transfer h).2, h.moved_eq_iff.2]
  constructor
  · intro he hstalls
    obtain ⟨moved', h'⟩ := hstalls
    cases (h.unique h').2.trans he
  · intro hstalls
    cases e with
    | complete => rfl
    | stalled => exact absurd ⟨moved, h⟩ hstalls
    | failed => exact absurd ⟨moved, _, h, .inl rfl⟩ hfails

end

/-! ## Whole requests -/

/-- Whatever the calls of `write_full` are answered, a device that is given whole
requests answers the same. -/
theorem writeFullCalls_eq_writeFull (answers : WriteAnswers) (data : Bytes) :
    ∃ f ret, cInt ret = (writeFullCalls answers data.length).1 ∧ ∀ env : Env, env.alive = true → env.next = f →
      writeFull env data = (env.pop, ret, data.take (writeFullCalls answers data.length).2) := by
  obtain ⟨moved, e, h⟩ := exists_transfer maxRwCount_pos answers data.length
  obtain ⟨hle, hcomplete⟩ := h.moved_eq_iff
  rw [writeFullCalls_transfer h]
  cases e with
  | complete =>
    refine ⟨.done, data.length, rfl, fun env halive hnext => ?_⟩
    have hall := hcomplete.2 rfl
    simp [writeFull, halive, hnext, hall]
  | stalled =>
    refine ⟨.stop moved 0, 0, cInt_nat (by decide), fun env halive hnext => ?_⟩
    have hlt : ¬ data.length ≤ moved := fun hge => absurd (hcomplete.1 (by omega)) (by simp)
    simp [writeFull, halive, hnext, hlt]
  | failed =>
    refine ⟨.stop moved 1, -1, cInt_neg_one, fun env halive hnext => ?_⟩
    have hlt : ¬ data.length ≤ moved := fun hge => absurd (hcomplete.1 (by omega)) (by simp)
    simp [writeFull, halive, hnext, hlt]

/-- The same for `read_full`, of the bytes that the calls deliver. -/
theorem readFullCalls_eq_readFull (reads : ReadAnswers) (size : Nat) :
    ∃ avail f ret, avail.length ≤ size ∧ cInt ret = (readFullCalls reads size).1 ∧
      ∀ env : Env, env.alive = true → env.next = f →
        readFull env avail = (env.pop, ret, (readFullCalls reads size).2) := by
  obtain ⟨moved, e, h⟩ := exists_transfer maxRwCount_pos reads.counts size
  obtain ⟨hret, hlen⟩ := readFullCalls_transfer h
  have hle : (readFullCalls reads size).2.length ≤ size := hlen ▸ h.moved_eq_iff.1
  by_cases he : e = .failed
  · rw [if_pos he] at hret
    refine ⟨_, .stop (readFullCalls reads size).2.length 1, -1, hle, cInt_neg_one.trans hret.symm,
      fun env halive hnext => ?_⟩
    simp [readFull, halive, hnext]
  · rw [if_neg he, ← hlen] at hret
    refine ⟨_, .done, _, hle, hret.symm, fun env halive hnext => ?_⟩
    simp [readFull, halive, hnext]

/-! ## The bucket operations -/

section
variable {d : BucketDirect} {c : BucketCircular}

/-- Success of the second half, whatever is asked of the first. -/
theorem directWritePayload_complete_iff (calls : DirectWriteCalls) (header len : Nat) {P : Prop} :
    ((directWritePayload calls header len).ret = 0 → P ∧ (directWritePayload calls header len).payload = len) ↔
      flushCall calls.fsync < 0 ∨ WriteFails calls.payload len ∨ P ∧ ¬ Stalls calls.payload len := by
  rw [directWritePayload]
  dsimp only
  by_cases hfails : WriteFails calls.payload len
  · have hneg := writeFullCalls_neg.2 hfails
    rw [if_pos hneg]
    exact iff_of_true (fun h => absurd h hneg.ne) (.inr (.inl hfails))
  · rw [if_neg (writeFullCalls_neg.not.2 hfails)]
    by_cases hflush : flushCall calls.fsync < 0
    · rw [if_pos hflush]
      exact iff_of_true (fun h => absurd h hflush.ne) (.inl hflush)
    · rw [if_neg hflush, or_iff_right hflush, or_iff_right hfails, ← writeFullCalls_complete hfails]
      exact ⟨fun h => h rfl, fun h _ => h⟩

theorem directWritePayload_header (calls : DirectWriteCalls) (header len : Nat) :
    (directWritePayload calls header len).header = header := by
  rw [directWritePayload]
  dsimp only
  split
  · rfl
  · split
    · rfl
    · rfl

theorem Errno.neg_ne (e : Errno) : (-(e : Int)) ≠ 0 := by
  have := e.2
  omega

theorem directWrite_complete_iff (calls : DirectWriteCalls) (len : Nat) :
    ((directWriteCalls d calls len).ret = 0 →
      (d.headRoom len → (directWriteCalls d calls len).header = directMetaSize) ∧
        (directWriteCalls d calls len).payload = len) ↔ DirectWriteFits d calls len := by
  rw [directWriteCalls, DirectWriteFits]
  cases hseek : calls.lseek with
  | some e => exact iff_of_true (fun h => absurd h e.neg_ne) (.inl (by simp))
  | none =>
    rw [or_iff_right (not_not_intro rfl)]
    by_cases hroom : d.headRoom len
    · simp only [if_pos hroom]
      by_cases hheader : WriteFails calls.header directMetaSize
      · have hneg := writeFullCalls_neg.2 hheader
        rw [if_pos hneg]
        exact iff_of_true (fun h => absurd h hneg.ne) (.inr (.inr (.inl hheader)))
      · rw [if_neg (writeFullCalls_neg.not.2 hheader), directWritePayload_complete_iff, directWritePayload_header,
          or_iff_right hheader, ← writeFullCalls_complete hheader, forall_prop_of_true hroom]
    · simp only [if_neg hroom]
      by_cases hcompat : d.compat = true
      · rw [if_pos hcompat, directWritePayload_complete_iff]
        simp [hroom, hcompat]
      · rw [if_neg hcompat]
        exact iff_of_true (fun h => by cases h) (.inr (.inr (.inl (by simpa using hcompat))))

/-- The same for the read, with the buffer that is returned. -/
theorem directReadPayload_complete_iff (calls : DirectReadCalls) (header len : Nat) :
    ((directReadPayload calls header len).1.ret = 0 → (directReadPayload calls header len).1.header = directMetaSize ∧
        (directReadPayload calls header len).2 = some (directReadPayload calls header len).1.payload) ↔
      ReadFails calls.payload len ∨ header = directMetaSize ∧ ¬ Stalls calls.payload.counts len := by
  rw [directReadPayload]
  dsimp only
  by_cases hfails : ReadFails calls.payload len
  · have hneg := readFullCalls_neg.2 hfails
    rw [if_pos hneg]
    exact iff_of_true (fun h => absurd h hneg.ne) (.inl hfails)
  · rw [if_neg (readFullCalls_neg.not.2 hfails), or_iff_right hfails, ← readFullCalls_complete hfails]
    dsimp only
    rw [Option.some.injEq, eq_comm (a := len)]
    exact ⟨fun h => h rfl, fun h _ => h⟩

theorem directRead_complete_iff (calls : DirectReadCalls) :
    ((directReadCalls d calls).2.1.ret = 0 → (directReadCalls d calls).2.1.header = directMetaSize ∧
      (directReadCalls d calls).2.2 = some (directReadCalls d calls).2.1.payload) ↔ DirectReadFits d calls := by
  rw [directReadCalls, DirectReadFits]
  cases hseek : calls.lseek with
  | some e => exact iff_of_true (fun h => absurd h e.neg_ne) (.inl (by simp))
  | none =>
    rw [or_iff_right (not_not_intro rfl)]
    dsimp only
    by_cases hheader : ReadFails calls.header directMetaSize
    · have hneg := readFullCalls_neg.2 hheader
      rw [if_pos hneg]
      exact iff_of_true (fun h => absurd h hneg.ne) (.inl hheader)
    rw [if_neg (readFullCalls_neg.not.2 hheader), or_iff_right hheader, forall_eq, ← readFullCalls_complete hheader,
      BucketDirect.readLen]
    by_cases hmagic : leNat ((calls.headerBytes (readFullCalls calls.header directMetaSize).2).take 4) = directMagic
    · rw [if_pos hmagic, if_pos hmagic]
      split
      · exact iff_of_true (fun h => by cases h) (by simp)
      · rw [directReadPayload_complete_iff]
        simp [hmagic]
    · rw [if_neg hmagic, if_neg hmagic]
      by_cases hcompat : d.compat = true
      · rw [if_pos (by exact hcompat), if_pos hcompat]
        cases hback : calls.lseekBack with
        | some e => exact iff_of_true (fun h => absurd h e.neg_ne) (by simp [hmagic])
        | none =>
          dsimp only
          rw [directReadPayload_complete_iff]
          simp [BucketDirect.noteMagic]
      · rw [if_neg (by exact hcompat), if_neg hcompat]
        exact iff_of_true (fun h => by cases h) (by simp)

theorem readFullCalls_le (reads : ReadAnswers) (size : Nat) : (readFullCalls reads size).2.length ≤ size := by
  obtain ⟨moved, e, h⟩ := exists_transfer maxRwCount_pos reads.counts size
  rw [(readFullCalls_transfer h).2]
  exact h.moved_eq_iff.1

/-- `state_mtd_peb_read` fails, or returns 0 behind the whole transfer. -/
theorem pebReadCalls_cases (lseek : Option Errno) (answers : ReadAnswers) (len : Int) :
    ((lseek ≠ none ∨ cInt len < 0 ∨ ReadFails answers (cInt len).toNat) ∧ (pebReadCalls lseek answers len).1 ≠ 0) ∨
    (lseek = none ∧ ¬ cInt len < 0 ∧ ¬ ReadFails answers (cInt len).toNat ∧
      pebReadCalls lseek answers len = (0, (readFullCalls answers (cInt len).toNat).2)) := by
  cases lseek with
  | some e => exact .inl ⟨.inl (by simp), e.neg_ne⟩
  | none =>
    rw [pebReadCalls.eq_def]
    dsimp only
    by_cases hneg : cInt len < 0
    · rw [if_pos hneg]
      exact .inl ⟨.inr (.inl hneg), by simp⟩
    rw [if_neg hneg]
    by_cases hfails : ReadFails answers (cInt len).toNat
    · have hret := readFullCalls_neg.2 hfails
      rw [if_pos hret]
      exact .inl ⟨.inr (.inr hfails), hret.ne⟩
    · rw [if_neg (readFullCalls_neg.not.2 hfails)]
      exact .inr ⟨rfl, hneg, hfails, rfl⟩

/-- A length that an `int` holds is transferred, another one never is as a
whole. -/
theorem circularReadRecord_complete_iff {lseek : Option Errno} {answers : ReadAnswers} {len : Nat} :
    ((circularReadRecord c lseek answers len).2.1.ret = 0 →
      (circularReadRecord c lseek answers len).2.2 = some (circularReadRecord c lseek answers len).2.1.payload) ↔
    (lseek ≠ none ∨ cInt len < 0 ∨ ReadFails answers (cInt len).toNat ∨
      cInt len = len ∧ ¬ Stalls answers.counts len) := by
  have hret : (circularReadRecord c lseek answers len).2.1.ret = (pebReadCalls lseek answers len).1 := by
    rw [circularReadRecord]
    dsimp only
    split
    · rfl
    · rfl
  rcases pebReadCalls_cases lseek answers len with ⟨herror, hne⟩ | ⟨hseek, hneg, hfails, hpeb⟩
  · refine iff_of_true (fun h => absurd (hret.symm.trans h) hne) ?_
    rcases herror with hseek | hneg | hfails
    · exact .inl hseek
    · exact .inr (.inl hneg)
    · exact .inr (.inr (.inl hfails))
  · rw [or_iff_right (not_not_intro hseek), or_iff_right hneg, or_iff_right hfails, hret, hpeb, forall_prop_of_true rfl,
      circularReadRecord, hpeb]
    dsimp only
    rw [if_neg (fun h => absurd h.1 (lt_irrefl 0)), Option.some.injEq]
    dsimp only
    by_cases hint : cInt len = len
    · have htoNat : (cInt len).toNat = len := by omega
      rw [htoNat] at hfails ⊢
      rw [← readFullCalls_complete hfails, eq_comm]
      exact ⟨fun h => ⟨hint, h⟩, fun h => h.2⟩
    · have hle := readFullCalls_le answers (cInt len).toNat
      have hlt : cInt len ≤ len := cInt_le
      exact iff_of_false (by omega) (fun h => hint h.1)

theorem circularRead_complete_iff (lseek : Option Errno) (answers : ReadAnswers) :
    ((circularReadCalls c lseek answers).2.1.ret = 0 →
      (circularReadCalls c lseek answers).2.2 = some (circularReadCalls c lseek answers).2.1.payload) ↔
      CircularReadFits c lseek answers := by
  have hrecord := fun c len => @circularReadRecord_complete_iff c lseek answers len
  rw [circularReadCalls, CircularReadFits, BucketCircular.readLen]
  by_cases hempty : c.writeArea = 0
  · rw [if_pos hempty, if_pos hempty]
    exact iff_of_true (fun h => by cases h) (.inr (by simp))
  rw [if_neg hempty, if_neg hempty]
  by_cases hold : c.lastWrittenLength = 0
  · rw [if_pos hold, if_pos hold]
    dsimp only
    rw [hrecord]
    simp
  rw [if_neg hold, if_neg hold]
  split
  · exact iff_of_true (fun h => by cases h) (.inr (by simp))
  · rw [hrecord]
    simp

theorem pebWriteCalls_cases (lseek : Option Errno) (answers : WriteAnswers) (len : Int) :
    ((lseek ≠ none ∨ cInt len < 0 ∨ WriteFails answers (cInt len).toNat) ∧ (pebWriteCalls lseek answers len).1 ≠ 0) ∨
    (lseek = none ∧ ¬ cInt len < 0 ∧ ¬ WriteFails answers (cInt len).toNat ∧
      pebWriteCalls lseek answers len = (0, (writeFullCalls answers (cInt len).toNat).2)) := by
  cases lseek with
  | some e => exact .inl ⟨.inl (by simp), e.neg_ne⟩
  | none =>
    rw [pebWriteCalls.eq_def]
    dsimp only
    by_cases hneg : cInt len < 0
    · rw [if_pos hneg]
      exact .inl ⟨.inr (.inl hneg), by simp⟩
    rw [if_neg hneg]
    by_cases hfails : WriteFails answers (cInt len).toNat
    · have hret := writeFullCalls_neg.2 hfails
      rw [if_pos hret]
      exact .inl ⟨.inr (.inr hfails), hret.ne⟩
    · rw [if_neg (writeFullCalls_neg.not.2 hfails)]
      exact .inr ⟨rfl, hneg, hfails, rfl⟩

theorem WriteFails.not_stalls {answers : WriteAnswers} {len : Nat} (h : WriteFails answers len) :
    ¬ Stalls answers len := by
  intro hstalls
  obtain ⟨moved, e, h, he⟩ := h
  obtain ⟨moved', h'⟩ := hstalls
  obtain ⟨-, rfl⟩ := h.unique h'
  rcases he with he | ⟨he, -⟩
  · cases he
  · cases he

theorem circularWriteRecord_complete_iff {lseek : Option Errno} {answers : WriteAnswers} {len : Nat}
    (hlt : len < 2 ^ 32) :
    ((circularWriteRecord c lseek answers len).2.ret = 0 →
      (circularWriteRecord c lseek answers len).2.payload = len) ↔
    (lseek ≠ none ∨ cInt len < 0 ∨ ¬ Stalls answers len) := by
  have hret : (circularWriteRecord c lseek answers len).2.ret = (pebWriteCalls lseek answers len).1 := rfl
  have hint : ¬ cInt len < 0 → (cInt len).toNat = len := by
    intro hneg
    rw [cInt_nat (cInt_nonneg hlt (not_lt.1 hneg)), Int.toNat_natCast]
  rcases pebWriteCalls_cases lseek answers len with ⟨herror, hne⟩ | ⟨hseek, hneg, hfails, hpeb⟩
  · refine iff_of_true (fun h => absurd (hret.symm.trans h) hne) ?_
    by_cases hneg : cInt len < 0
    · exact .inr (.inl hneg)
    rcases herror with hseek | hbad | hfails
    · exact .inl hseek
    · exact absurd hbad hneg
    · rw [hint hneg] at hfails
      exact .inr (.inr hfails.not_stalls)
  · rw [hint hneg] at hfails hpeb
    rw [or_iff_right (not_not_intro hseek), or_iff_right hneg, hret, hpeb, forall_prop_of_true rfl,
      circularWriteRecord, hpeb]
    exact writeFullCalls_complete hfails

theorem circularWrittenLength_lt (g : Geometry) (len : Nat) : circularWrittenLength g len < 2 ^ 32 :=
  Nat.mod_lt _ (by decide)

theorem circularWrite_complete_iff (erase : Int) (lseek : Option Errno) (answers : WriteAnswers) (len : Nat) :
    (∀ r, circularWriteCalls c erase lseek answers len = some r → r.2.ret = 0 →
      r.2.payload = circularWrittenLength c.geo len) ↔ CircularWriteFits c erase lseek answers len := by
  rw [circularWriteCalls, CircularWriteFits]
  dsimp only
  by_cases hbig : c.geo.erasesize < circularWrittenLength c.geo len
  · rw [if_pos hbig]
    refine iff_of_true (fun r hr hret => ?_) (.inl hbig)
    cases hr
    cases hret
  rw [if_neg hbig, or_iff_right hbig]
  by_cases hshort : circularWrittenLength c.geo len < len + circularMetaSize
  · rw [if_pos hshort]
    exact iff_of_true (fun r hr => by cases hr) (.inl hshort)
  rw [if_neg hshort, or_iff_right hshort]
  have hfull : ((if c.geo.erasesize ≤ c.writeArea + circularWrittenLength c.geo len then { c with writeArea := 0 }
      else c : BucketCircular).writeArea = 0) ↔
      (c.geo.erasesize ≤ c.writeArea + circularWrittenLength c.geo len ∨ c.writeArea = 0) := by
    split
    · next h => simp [h]
    · next h => simp [h]
  by_cases herase : (c.geo.erasesize ≤ c.writeArea + circularWrittenLength c.geo len ∨ c.writeArea = 0) ∧ erase ≠ 0
  · rw [if_pos (by rw [hfull]; exact herase)]
    refine iff_of_true (fun r hr hret => ?_) (.inl herase)
    cases hr
    exact absurd hret herase.2
  · rw [if_neg (by rw [hfull]; exact herase), or_iff_right herase,
      ← circularWriteRecord_complete_iff (circularWrittenLength_lt c.geo len)]
    exact ⟨fun h => h _ rfl, fun h r hr => by cases hr; exact h⟩

end

/-- **When success means that every byte was transferred**: an operation of a
bucket that returns 0 moved all bytes of header and payload if and only if none
of its transfers is answered by a call that moves nothing while there are bytes
left, or something else makes it fail. -/
theorem transfers_complete_iff (d : BucketDirect) (c : BucketCircular) :
    (∀ calls len, ((directWriteCalls d calls len).ret = 0 →
      (d.headRoom len → (directWriteCalls d calls len).header = directMetaSize) ∧
        (directWriteCalls d calls len).payload = len) ↔ DirectWriteFits d calls len) ∧
    (∀ calls, ((directReadCalls d calls).2.1.ret = 0 → (directReadCalls d calls).2.1.header = directMetaSize ∧
      (directReadCalls d calls).2.2 = some (directReadCalls d calls).2.1.payload) ↔ DirectReadFits d calls) ∧
    (∀ erase lseek answers len, (∀ r, circularWriteCalls c erase lseek answers len = some r → r.2.ret = 0 →
      r.2.payload = circularWrittenLength c.geo len) ↔ CircularWriteFits c erase lseek answers len) ∧
    ∀ lseek answers, ((circularReadCalls c lseek answers).2.1.ret = 0 →
      (circularReadCalls c lseek answers).2.2 = some (circularReadCalls c lseek answers).2.1.payload) ↔
        CircularReadFits c lseek answers :=
  ⟨directWrite_complete_iff, directRead_complete_iff, circularWrite_complete_iff, circularRead_complete_iff⟩

/-- Calls that move nothing at all, behind which both writes return 0; and a file
of a header alone, whose payload is read as if it were there. -/
theorem transfers_stalled :
    (directWriteCalls ⟨1024, false, false, false, [], by decide⟩
      ⟨none, Stream'.const (some 0), Stream'.const (some 0), none⟩ 16) = ⟨0, 0, 0⟩ ∧
    (directReadCalls ⟨1024, false, false, false, [], by decide⟩
      ⟨[], none, Stream'.const (some (directMeta 16)), none, Stream'.const (some [])⟩).2 = (⟨0, 8, 0⟩, some 16) ∧
    ((circularWriteCalls ⟨⟨0, 8, 4096, by decide, by decide, by decide, by decide, by decide⟩, 0, 0, false, []⟩ 0 none
      (Stream'.const (some 0)) 16).map Prod.snd) = some ⟨0, 0, 0⟩ ∧
    (circularReadCalls ⟨⟨0, 8, 4096, by decide, by decide, by decide, by decide, by decide⟩, 24, 24, false, []⟩ none
      (Stream'.const (some []))).2 = (⟨0, 0, 0⟩, some 24) := by
  decide +kernel

end DtUtils
