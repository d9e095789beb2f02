/-
The direct bucket of `backend_bucket_direct.c`: a magic and a length in front
of the payload, at a fixed offset of a file or device that needs no erase.

`BucketDirect.area` is the file from the bucket's offset on, up to its end;
`compat` is `CONFIG_STATE_BACKWARD_COMPATIBLE`, off by default.
-/
import DtUtils.Common

namespace DtUtils
open Lib

/-- `struct state_backend_storage_bucket_direct` -/
structure BucketDirect where
  /-- The stride. -/
  maxSize : Nat
  compat : Bool
  /-- The file was opened with `O_RDONLY`. -/
  readonly : Bool
  wrongMagic : Bool
  area : Bytes
  /-- A 32-bit cell of the device tree. -/
  maxSize_lt : maxSize < 2 ^ 32

theorem flagStride_lt : 64 < 2 ^ 32 := by decide

theorem treeStride_lt : 256 < 2 ^ 32 := by decide

def directMagic : Nat := 0x2354fdf3

/-- `sizeof(struct state_backend_storage_bucket_direct_meta)` -/
def directMetaSize : Nat := 8

def directMeta (writtenLength : Nat) : Bytes := leBytes 4 directMagic ++ leBytes 4 writtenLength

/-- `read_full` of `len` bytes from position `pos` of the area: its return
value as an `int`, and the bytes delivered. -/
def directReadFull (env : Env) (d : BucketDirect) (pos len : Nat) : Env × Int × Bytes :=
  if len = 0 then (env, 0, [])
  else
    let (env, ret, got) := readFull env (slice pos len d.area)
    (env, cInt ret, got)

/-- The second half of `state_backend_bucket_direct_read`, once the length is
known: the return value and, if they are set, `*buf_out` and `*len_out`. -/
def directReadData (env : Env) (d : BucketDirect) (pos readLen : Nat) :
    Env × BucketDirect × Int × Option (Bytes × Int) :=
  let (env, ret, got) := directReadFull env d pos readLen
  if ret < 0 then (env, d, ret, none)
  else (env, d, 0, some (got ++ List.replicate (readLen - got.length) 0, readLen))

/-- The header as far as it was read, the rest of it being what the stack
held. -/
def directReadMeta (env : Env) (got : Bytes) : Bytes :=
  got ++ ((env.stack ++ List.replicate directMetaSize 0).take directMetaSize).drop got.length

/-- `wrong_magic` once the header's magic turned out not to be the bucket's. -/
def BucketDirect.noteMagic (d : BucketDirect) (magic : Nat) : BucketDirect :=
  { d with wrongMagic := if magic ≠ 0xffffffff ∧ magic ≠ 0 then true else d.wrongMagic }

/-- `state_backend_bucket_direct_read` -/
def bucketDirectRead (env : Env) (d : BucketDirect) : Env × BucketDirect × Int × Option (Bytes × Int) :=
  let (env, ret, got) := directReadFull env d 0 directMetaSize
  if ret < 0 then (env, d, ret, none)
  else
    let header := directReadMeta env got
    let magic := leNat (header.take 4)
    let readLen := leNat (slice 4 4 header)
    if magic = directMagic then
      if d.maxSize < readLen then (env, d, -EINVAL, none)
      else directReadData env d got.length readLen
    else
      let d := d.noteMagic magic
      if d.compat then directReadData env d 0 d.maxSize
      else (env, d, -EINVAL, none)

/-- `write_full` at position `pos` of the area: its return value as an `int`,
and how many bytes were taken. -/
def directWriteFull (env : Env) (d : BucketDirect) (pos : Nat) (data : Bytes) : Env × BucketDirect × Int × Nat :=
  if data = [] then (env, d, 0, 0)
  else if d.readonly then (env, d, -1, 0)
  else
    let (env, ret, taken) := writeFull env data
    (env, { d with area := splice pos taken d.area }, cInt ret, taken.length)

/-- `flush` -/
def directFlush (env : Env) : Env × Int :=
  if env.alive then
    match env.next with
    | .done => (env.pop, 0)
    | .stop _ err => (env.pop, if (err : Int) = EINVAL then 0 else -err)
    | .powerLoss _ => (env.pop.crash, -1)
  else (env, -1)

/-- The second half of `state_backend_bucket_direct_write`: the payload at
`pos`. -/
def directWriteData (env : Env) (d : BucketDirect) (pos : Nat) (buf : Bytes) : Env × BucketDirect × Int :=
  let (env, d, ret, _) := directWriteFull env d pos buf
  if ret < 0 then (env, d, ret)
  else
    let (env, ret) := directFlush env
    if ret < 0 then (env, d, ret) else (env, d, 0)

/-- `len <= direct->max_size - sizeof(meta)`, computed in 64-bit `size_t`. -/
def BucketDirect.headRoom (d : BucketDirect) (len : Nat) : Prop :=
    len ≤ (d.maxSize + (2 ^ 64 - directMetaSize)) % 2 ^ 64

instance (d : BucketDirect) (len : Nat) : Decidable (d.headRoom len) := inferInstanceAs (Decidable (_ ≤ _))

/-- `state_backend_bucket_direct_write` -/
def bucketDirectWrite (env : Env) (d : BucketDirect) (buf : Bytes) : Env × BucketDirect × Int :=
  if d.headRoom buf.length then
    let (env, d, ret, pos) := directWriteFull env d 0 (directMeta buf.length)
    if ret < 0 then (env, d, ret) else directWriteData env d pos buf
  else if d.compat then directWriteData env d 0 buf
  else (env, d, -EINVAL)

/-- `state_backend_bucket_direct_create` on a file whose bytes from the
bucket's offset on are `area`, once the file is open. -/
def bucketDirectCreate (maxSize : UInt32) (compat readonly : Bool) (area : Bytes) : BucketDirect :=
  ⟨maxSize.toNat, compat, readonly, false, area, maxSize.toNat_lt⟩

/-! ## What the next process reads -/

/-- `len` bytes of the file from `pos` on, and zeros where it has ended. -/
def BucketDirect.filled (d : BucketDirect) (pos len : Nat) : Option Bytes :=
  let data := slice pos len d.area
  if 0 ≤ cInt data.length then some (data ++ List.replicate (len - data.length) 0) else none

/-- The payload a direct bucket holds, if its file reaches as far as the
header: behind the metadata, or in a backward compatible build without them. -/
def directPayload (d : BucketDirect) : Option Bytes :=
  if d.area.length < directMetaSize then none
  else if leNat (d.area.take 4) = directMagic then
    if leNat (slice 4 4 d.area) ≤ d.maxSize then d.filled 8 (leNat (slice 4 4 d.area)) else none
  else if d.compat then d.filled 0 d.maxSize
  else none

/-- A read leaves everything but the foreign content flag as it is. -/
structure BucketDirect.SameFile (d d' : BucketDirect) : Prop where
  area : d'.area = d.area
  maxSize : d'.maxSize = d.maxSize
  compat : d'.compat = d.compat
  readonly : d'.readonly = d.readonly

theorem BucketDirect.SameFile.refl (d : BucketDirect) : d.SameFile d := ⟨rfl, rfl, rfl, rfl⟩

theorem BucketDirect.noteMagic_sameFile (d : BucketDirect) (magic : Nat) : d.SameFile (d.noteMagic magic) :=
  ⟨rfl, rfl, rfl, rfl⟩

theorem BucketDirect.SameFile.payload {d d' : BucketDirect} (h : d.SameFile d') :
    directPayload d' = directPayload d := by
  simp only [directPayload, BucketDirect.filled, h.area, h.maxSize, h.compat]

/-- What a read of a bucket that was not cut short comes to: its payload, or
an error, or (if the file ends before the header does) zeros. -/
inductive BucketDirect.Delivers (d : BucketDirect) : Int → Option (Bytes × Int) → Prop
  | payload {p} : directPayload d = some p → Delivers d 0 (some (p, (p.length : Int)))
  | error {ret} : directPayload d = none → ret ≠ 0 → Delivers d ret none
  | zeros (n : Nat) : directPayload d = none → Delivers d 0 (some (List.replicate n 0, (n : Int)))

theorem directReadFull_power {env : Env} (henv : env.PowerOnly) (d : BucketDirect) (pos len : Nat) :
    ∃ env' ret got, directReadFull env d pos len = (env', ret, got) ∧ env.Follows env' ∧
      (env'.alive = true → ret = cInt (slice pos len d.area).length ∧ got = slice pos len d.area) := by
  unfold directReadFull
  by_cases h0 : len = 0
  · rw [if_pos h0]
    subst h0
    exact ⟨env, _, _, rfl, .refl env, fun _ => ⟨by simp [slice, cInt_of_lt], by simp [slice]⟩⟩
  · rw [if_neg h0]
    obtain ⟨env', ret, got, hr, hf, ha, -⟩ := readFull_power henv (slice pos len d.area)
    rw [hr]
    refine ⟨env', cInt ret, got, rfl, hf, fun halive => ?_⟩
    obtain ⟨rfl, rfl⟩ := ha halive
    exact ⟨rfl, rfl⟩

theorem BucketDirect.filled_eq_some {d : BucketDirect} {pos len : Nat} (h : 0 ≤ cInt (slice pos len d.area).length) :
    d.filled pos len = some (slice pos len d.area ++ List.replicate (len - (slice pos len d.area).length) 0) := if_pos h

theorem BucketDirect.filled_eq_none {d : BucketDirect} {pos len : Nat} (h : cInt (slice pos len d.area).length < 0) :
    d.filled pos len = none := if_neg (by omega)

/-- The data come to what `filled` says, or to an error. -/
inductive BucketDirect.Fills (d : BucketDirect) (pos len : Nat) : Int → Option (Bytes × Int) → Prop
  | data {p} : d.filled pos len = some p → Fills d pos len 0 (some (p, (p.length : Int)))
  | error {ret} : d.filled pos len = none → ret ≠ 0 → Fills d pos len ret none

theorem directReadData_power {env : Env} (henv : env.PowerOnly) (d : BucketDirect) (pos len : Nat) :
    ∃ env' ret out, directReadData env d pos len = (env', d, ret, out) ∧ env.Follows env' ∧
      (env'.alive = true → d.Fills pos len ret out) := by
  obtain ⟨env', ret, got, hr, hf, ha⟩ := directReadFull_power henv d pos len
  have hlen := slice_length_le pos len d.area
  simp only [directReadData, hr]
  by_cases hneg : ret < 0
  · rw [if_pos hneg]
    refine ⟨env', ret, none, rfl, hf, fun halive => ?_⟩
    obtain ⟨hret, -⟩ := ha halive
    exact .error (BucketDirect.filled_eq_none (hret ▸ hneg)) (by omega)
  · rw [if_neg hneg]
    refine ⟨env', 0, _, rfl, hf, fun halive => ?_⟩
    obtain ⟨hret, rfl⟩ := ha halive
    have hsome : d.filled pos len = _ := BucketDirect.filled_eq_some (by omega)
    have h := BucketDirect.Fills.data hsome
    rwa [List.length_append, List.length_replicate, Nat.add_sub_cancel' hlen] at h

theorem BucketDirect.SameFile.fills {d d' : BucketDirect} (h : d.SameFile d') {pos len : Nat} {ret : Int}
    {out : Option (Bytes × Int)} (hf : d'.Fills pos len ret out) : d.Fills pos len ret out := by
  have hd : d'.filled pos len = d.filled pos len := by simp only [BucketDirect.filled, h.area]
  cases hf with
  | data h => exact .data (hd.symm.trans h)
  | error h hne => exact .error (hd.symm.trans h) hne

theorem BucketDirect.Fills.delivers {d : BucketDirect} {pos len : Nat} {ret : Int} {out : Option (Bytes × Int)}
    (h : d.Fills pos len ret out) (hp : directPayload d = d.filled pos len) : d.Delivers ret out := by
  cases h with
  | data h => exact .payload (hp.trans h)
  | error h hne => exact .error (hp.trans h) hne

/-- A file that ends before the header does delivers no data. -/
theorem slice_end (len : Nat) (area : Bytes) : slice area.length len area = [] := by simp [slice]

/-- A read, but for the remnants of a header in a backward compatible build. -/
theorem bucketDirectRead_power {env : Env} (henv : env.PowerOnly) {d : BucketDirect}
    (hcompat : d.compat = false ∨ 8 ≤ d.area.length) :
    ∃ env' d' ret out, bucketDirectRead env d = (env', d', ret, out) ∧ env.Follows env' ∧ d.SameFile d' ∧
      (env'.alive = true → d.Delivers ret out) := by
  obtain ⟨env₁, r, got, hr, hf₁, ha₁⟩ := directReadFull_power henv d 0 directMetaSize
  simp only [bucketDirectRead, hr, slice_zero_left] at ha₁ ⊢
  by_cases hneg : r < 0
  · rw [if_pos hneg]
    refine ⟨env₁, d, r, none, rfl, hf₁, .refl d, fun halive => ?_⟩
    have hlt : (d.area.take directMetaSize).length ≤ 8 := by simp [directMetaSize]
    have hcast := cInt_of_lt (x := ((d.area.take directMetaSize).length : Int)) (by omega) (by omega)
    have := (ha₁ halive).1
    omega
  rw [if_neg hneg]
  -- The words of the header, unless they come from the stack.
  have hwords : env₁.alive = true → 8 ≤ d.area.length → got.length = 8 ∧
      leNat ((directReadMeta env₁ got).take 4) = leNat (d.area.take 4) ∧
      leNat (slice 4 4 (directReadMeta env₁ got)) = leNat (slice 4 4 d.area) := by
    intro halive h8
    obtain ⟨-, rfl⟩ := ha₁ halive
    have hhead : directReadMeta env₁ (d.area.take directMetaSize) = d.area.take 8 := by
      simp [directReadMeta, directMetaSize, h8]
    rw [hhead, slice_take (by omega), List.take_take, Nat.min_eq_left (by omega)]
    exact ⟨by simp [directMetaSize, h8], rfl, rfl⟩
  by_cases hmagic : leNat ((directReadMeta env₁ got).take 4) = directMagic
  · rw [if_pos hmagic]
    by_cases hbig : d.maxSize < leNat (slice 4 4 (directReadMeta env₁ got))
    · rw [if_pos hbig]
      refine ⟨env₁, d, -EINVAL, none, rfl, hf₁, .refl d, fun halive => ?_⟩
      have hnone : directPayload d = none := by
        unfold directPayload
        by_cases h8 : 8 ≤ d.area.length
        · obtain ⟨-, h1, h2⟩ := hwords halive h8
          rw [if_neg (by simp only [directMetaSize]; omega), if_pos (h1.symm.trans hmagic), if_neg (by omega)]
        · rw [if_pos (by simp only [directMetaSize]; omega)]
      exact .error hnone (by decide)
    rw [if_neg hbig]
    obtain ⟨env₂, ret, out, hd, hf₂, ha₂⟩ :=
      directReadData_power (hf₁.power henv) d got.length (leNat (slice 4 4 (directReadMeta env₁ got)))
    refine ⟨env₂, d, ret, out, hd, hf₁.trans hf₂, .refl d, fun halive => ?_⟩
    have hout := ha₂ halive
    have halive₁ := hf₂.alive halive
    by_cases h8 : 8 ≤ d.area.length
    · obtain ⟨h0, h1, h2⟩ := hwords halive₁ h8
      rw [h0, h2] at hout
      refine hout.delivers ?_
      unfold directPayload
      rw [if_neg (by simp only [directMetaSize]; omega), if_pos (h1.symm.trans hmagic), if_pos (by omega)]
    · -- The header comes from the stack and there is nothing behind it.
      obtain ⟨-, rfl⟩ := ha₁ halive₁
      have hgot : d.area.take directMetaSize = d.area := List.take_of_length_le (by simp only [directMetaSize]; omega)
      have hnone : directPayload d = none := by
        unfold directPayload
        rw [if_pos (by simp only [directMetaSize]; omega)]
      have hnil : slice d.area.length (leNat (slice 4 4 (directReadMeta env₁ d.area))) d.area = [] := slice_end _ _
      have hfill : d.filled d.area.length (leNat (slice 4 4 (directReadMeta env₁ d.area))) =
          some (List.replicate (leNat (slice 4 4 (directReadMeta env₁ d.area))) 0) := by
        rw [BucketDirect.filled_eq_some, hnil]
        · rfl
        · rw [hnil, List.length_nil, cInt_of_lt] <;> omega
      rw [hgot] at hout
      cases hout with
      | data h =>
        cases hfill.symm.trans h
        rw [List.length_replicate]
        exact .zeros _ hnone
      | error h => cases hfill.symm.trans h
  · rw [if_neg hmagic]
    have hsame := d.noteMagic_sameFile (leNat ((directReadMeta env₁ got).take 4))
    generalize d.noteMagic (leNat ((directReadMeta env₁ got).take 4)) = d' at *
    cases hc : d.compat with
    | false =>
      rw [hsame.compat, hc, if_neg Bool.false_ne_true]
      refine ⟨env₁, d', -EINVAL, none, rfl, hf₁, hsame, fun halive => ?_⟩
      have hnone : directPayload d = none := by
        unfold directPayload
        by_cases h8 : 8 ≤ d.area.length
        · obtain ⟨-, h1, -⟩ := hwords halive h8
          rw [if_neg (by simp only [directMetaSize]; omega), if_neg (fun h => hmagic (h1.trans h)), hc,
            if_neg Bool.false_ne_true]
        · rw [if_pos (by simp only [directMetaSize]; omega)]
      exact .error hnone (by decide)
    | true =>
      rw [hsame.compat, hc, if_pos rfl]
      have h8 : 8 ≤ d.area.length := hcompat.resolve_left (by simp [hc])
      obtain ⟨env₂, ret, out, hd, hf₂, ha₂⟩ := directReadData_power (hf₁.power henv) d' 0 d'.maxSize
      refine ⟨env₂, d', ret, out, hd, hf₁.trans hf₂, hsame, fun halive => ?_⟩
      obtain ⟨-, h1, -⟩ := hwords (hf₂.alive halive) h8
      refine (hsame.fills (ha₂ halive)).delivers ?_
      unfold directPayload
      rw [if_neg (by simp only [directMetaSize]; omega), if_neg (fun h => hmagic (h1.trans h)), hc, if_pos rfl,
        hsame.maxSize]

/-! ## What a write leaves -/

theorem directWriteFull_power {env : Env} (henv : env.PowerOnly) {d : BucketDirect} (hro : d.readonly = false)
    (pos : Nat) (data : Bytes) :
    ∃ env' ret k, directWriteFull env d pos data =
        (env', { d with area := splice pos (data.take k) d.area }, ret, (data.take k).length) ∧ env.Follows env' ∧
      (env'.alive = true → ret = cInt data.length ∧ k = data.length) ∧
      (env'.alive = false → ret < 0 ∨ ret = 0 ∧ k = data.length) ∧ (env.alive = false → k = 0) := by
  unfold directWriteFull
  by_cases h0 : data = []
  · rw [if_pos h0]
    subst h0
    exact ⟨env, 0, 0, by simp, .refl env, fun _ => ⟨by simp [cInt_of_lt], rfl⟩, fun _ => .inr ⟨rfl, rfl⟩, fun _ => rfl⟩
  · rw [if_neg h0, if_neg (by simp [hro])]
    obtain ⟨env', ret, k, hw, hf, ha, hd, hz⟩ := writeFull_power henv data
    rw [hw]
    refine ⟨env', cInt ret, k, rfl, hf, fun halive => ?_, fun hdead => .inl ?_, hz⟩
    · obtain ⟨rfl, rfl⟩ := ha halive
      exact ⟨rfl, rfl⟩
    · rw [hd hdead]
      decide +kernel

theorem directFlush_power {env : Env} (henv : env.PowerOnly) :
    ∃ env' ret, directFlush env = (env', ret) ∧ env.Follows env' ∧ (ret = 0 ↔ env'.alive = true) ∧ ret ≤ 0 := by
  unfold directFlush
  by_cases ha : env.alive
  · rw [if_pos ha]
    rcases henv.next with hn | ⟨k, hn⟩
    · simp only [hn]
      exact ⟨_, _, rfl, .pop env, by simp [ha], le_refl _⟩
    · simp only [hn]
      exact ⟨_, _, rfl, .popCrash hn, by simp, by decide⟩
  · rw [if_neg ha]
    exact ⟨_, _, rfl, .refl env, by simp [ha], by decide⟩

/-- The payload reaches the file as far as the power lasts. -/
theorem directWriteData_power {env : Env} (henv : env.PowerOnly) {d : BucketDirect} (hro : d.readonly = false)
    (pos : Nat) (buf : Bytes) :
    ∃ env' ret k, directWriteData env d pos buf = (env', { d with area := splice pos (buf.take k) d.area }, ret) ∧
      env.Follows env' ∧ (ret = 0 → k = buf.length ∧ env'.alive = true) ∧
      (env'.alive = true → buf.length < 2 ^ 31 → ret = 0) ∧ (env.alive = false → k = 0) := by
  obtain ⟨env₁, r, k, hw, hf₁, ha, hd, hz⟩ := directWriteFull_power henv hro pos buf
  simp only [directWriteData, hw]
  by_cases hneg : r < 0
  · rw [if_pos hneg]
    refine ⟨env₁, r, k, rfl, hf₁, fun h0 => by omega, fun halive hlt => ?_, hz⟩
    have hr := (ha halive).1
    rw [cInt_of_lt (by omega) (by omega)] at hr
    omega
  · rw [if_neg hneg]
    have hk : k = buf.length := by
      cases halive : env₁.alive with
      | true => exact (ha halive).2
      | false => exact (hd halive).elim (fun h => absurd h hneg) And.right
    obtain ⟨env₂, r₂, hfl, hf₂, hiff, hle⟩ := directFlush_power (hf₁.power henv)
    rw [hfl]
    by_cases h2 : r₂ < 0
    · simp only [h2, if_true]
      exact ⟨env₂, r₂, k, rfl, hf₁.trans hf₂, fun h0 => by omega, fun halive _ => hiff.2 halive, hz⟩
    · simp only [h2, if_false]
      have h0 : r₂ = 0 := by omega
      exact ⟨env₂, 0, k, rfl, hf₁.trans hf₂, fun _ => ⟨hk, hiff.1 h0⟩, fun _ _ => rfl, hz⟩

/-- What a write puts into the file. -/
def directRecord (buf : Bytes) : Bytes := directMeta buf.length ++ buf

@[simp] theorem directMeta_length (n : Nat) : (directMeta n).length = 8 := by simp [directMeta]

/-- What a write puts into the file: in a backward compatible build without
metadata if there is no room for them. -/
def BucketDirect.image (d : BucketDirect) (buf : Bytes) : Bytes :=
    if d.headRoom buf.length then directRecord buf else buf

/-- A write: some first bytes of the image reach the file, all of them if it
reports success. -/
theorem bucketDirectWrite_power {env : Env} (henv : env.PowerOnly) {d : BucketDirect} (hro : d.readonly = false)
    (buf : Bytes) :
    ∃ env' ret k, bucketDirectWrite env d buf =
        (env', { d with area := splice 0 ((d.image buf).take k) d.area }, ret) ∧ env.Follows env' ∧
      (ret = 0 → k = (d.image buf).length ∧ (d.headRoom buf.length ∨ d.compat = true) ∧ env'.alive = true) ∧
      (env'.alive = true → d.headRoom buf.length → buf.length < 2 ^ 31 → ret = 0) ∧ (env.alive = false → k = 0) := by
  unfold bucketDirectWrite BucketDirect.image
  by_cases hroom : d.headRoom buf.length
  · simp only [hroom, if_true]
    obtain ⟨env₁, r, k, hw, hf₁, ha, hd, hz⟩ := directWriteFull_power henv hro 0 (directMeta buf.length)
    rw [hw]
    by_cases hneg : r < 0
    · -- The metadata was cut: the first `k` bytes of the record.
      simp only [hneg, if_true]
      have hcut : (directRecord buf).take (min k 8) = (directMeta buf.length).take k := by
        have hm := directMeta_length buf.length
        rw [directRecord, List.take_append_of_le_length (by omega), ← List.take_take, ← hm, List.take_length]
      refine ⟨env₁, r, min k 8, by rw [hcut], hf₁, fun h0 => by omega, fun halive => ?_,
        fun hdead => by rw [hz hdead]; rfl⟩
      have hr := (ha halive).1
      rw [directMeta_length, cInt_of_lt (by decide) (by decide)] at hr
      omega
    · simp only [hneg, if_false]
      have hk : k = 8 := by
        cases halive : env₁.alive with
        | true => simpa using (ha halive).2
        | false => exact (hd halive).elim (fun h => absurd h hneg) (fun h => by simpa using h.2)
      subst hk
      have hfull : (directMeta buf.length).take 8 = directMeta buf.length := List.take_of_length_le (by simp)
      simp only [hfull, directMeta_length]
      obtain ⟨env₂, ret, j, hwd, hf₂, hok, hlive, -⟩ :=
        directWriteData_power (hf₁.power henv)
          (d := { d with area := splice 0 (directMeta buf.length) d.area }) hro 8 buf
      rw [hwd]
      have hcut : (directRecord buf).take (8 + j) = directMeta buf.length ++ buf.take j := by
        have hm := directMeta_length buf.length
        rw [directRecord, List.take_append, List.take_of_length_le (by omega), hm, Nat.add_sub_cancel_left]
      refine ⟨env₂, ret, 8 + j, ?_, hf₁.trans hf₂, fun h0 => ?_, fun halive _ hlt => hlive halive hlt,
        fun hdead => by have := hz hdead; omega⟩
      · rw [hcut]
        simp only [splice_splice (directMeta_length _)]
      · obtain ⟨rfl, halive⟩ := hok h0
        exact ⟨by simp [directRecord], .inl trivial, halive⟩
  · simp only [hroom, if_false]
    cases hc : d.compat with
    | false =>
      simp only [Bool.false_eq_true, if_false]
      obtain ⟨maxSize, compat, ro, wrong, area, hmax⟩ := d
      cases hc
      exact ⟨env, -EINVAL, 0, by simp, .refl env, fun h0 => by simp [EINVAL] at h0, fun _ h => h.elim, fun _ => rfl⟩
    | true =>
      simp only [if_true]
      obtain ⟨env', ret, k, hwd, hf, hok, -, hz⟩ := directWriteData_power henv hro 0 buf
      refine ⟨env', ret, k, by rw [hwd, hc], hf, fun h0 => ?_, fun _ h => h.elim, hz⟩
      obtain ⟨rfl, halive⟩ := hok h0
      exact ⟨rfl, .inr trivial, halive⟩

theorem directRecord_parts {area p rest : Bytes} (harea : area = directRecord p ++ rest) (hint : p.length < 2 ^ 31) :
    area.take 4 = leBytes 4 directMagic ∧ leNat (slice 4 4 area) = p.length ∧ slice directMetaSize p.length area = p ∧
      directMetaSize ≤ area.length := by
  subst harea
  refine ⟨?_, ?_, slice_append_mid (directMeta_length _) rfl, ?_⟩
  · rw [directRecord, directMeta, List.append_assoc, List.append_assoc, List.take_append_of_le_length (by simp),
      List.take_of_length_le (by simp)]
  · rw [directRecord, directMeta, List.append_assoc _ p, slice_append_left (by simp)]
    rw [← List.append_nil (leBytes 4 directMagic ++ _), slice_append_mid (by simp) (by simp)]
    exact leNat_leBytes_of_lt (by omega)
  · rw [directRecord, List.length_append, List.length_append, directMeta_length, directMetaSize]
    omega

/-- A file that begins with a record is read back as its payload. -/
theorem directPayload_record {d : BucketDirect} {p rest : Bytes} (harea : d.area = directRecord p ++ rest)
    (hle : p.length ≤ d.maxSize) (hint : p.length < 2 ^ 31) : directPayload d = some p := by
  obtain ⟨hfour, hlen, hdata, h8⟩ := directRecord_parts harea hint
  have hmagic : leNat (d.area.take 4) = directMagic := by
    rw [hfour]
    exact leNat_leBytes_of_lt (by decide)
  rw [directMetaSize] at hdata
  unfold directPayload
  rw [if_neg (by omega), if_pos hmagic, if_pos (by omega), hlen, BucketDirect.filled_eq_some, hdata, Nat.sub_self,
    List.replicate_zero, List.append_nil]
  rw [hdata, cInt_of_lt (by omega) (by omega)]
  omega

end DtUtils
