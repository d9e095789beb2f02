/-
Where `backend_storage.c` puts the buckets: `state_storage_file_buckets_init`
for conventional files and `state_storage_mtd_buckets_init` for flash. Which
of the creations fail is a parameter. `none` results are overflows of `off_t`.
-/
import DtUtils.Common
import Mathlib.Data.List.Nodup

namespace DtUtils
open Lib

/-- `desired_buckets` -/
def desiredBuckets : Nat := 3

/-! ## Files -/

/-- A direct bucket as it is created. -/
structure FileBucket where
  offset : Nat
  maxSize : Nat
  num : Nat
deriving DecidableEq

/-- `n * stridesize`, a `uint32_t`. -/
def strideOffset (stridesize : UInt32) (n : Nat) : Nat := (.ofNat n * stridesize).toNat

/-- The loop of `state_storage_file_buckets_init` over the remaining `n`s,
where `create n` is what creating the bucket returns. -/
def fileBucketsLoop (offset : Nat) (stridesize : UInt32) (create : Nat → Int) (nBuckets : Nat) :
    List Nat → Option (List FileBucket)
  | [] => some []
  | n :: ns =>
    let off := offset + strideOffset stridesize n
    if 2 ^ 63 ≤ off then none
    else if create n ≠ 0 then fileBucketsLoop offset stridesize create nBuckets ns
    else (⟨off, stridesize.toNat, nBuckets⟩ :: ·) <$> fileBucketsLoop offset stridesize create (nBuckets + 1) ns

/-- `state_storage_file_buckets_init`: the buckets and the return value. -/
def stateStorageFileBucketsInit (offset maxSize : Nat) (stridesize : UInt32) (create : Nat → Int) :
    Option (List FileBucket × Int) :=
  if stridesize = 0 then some ([], -EINVAL)
  else if maxSize ≠ 0 ∧ maxSize < strideOffset stridesize desiredBuckets then some ([], -EINVAL)
  else do
    let buckets ← fileBucketsLoop offset stridesize create 0 (List.range desiredBuckets)
    if buckets.isEmpty then return ([], - EIO) else return (buckets, 0)

/-- No two buckets overlap, and all lie in the area that the storage has. -/
structure FileBucketsSound (offset maxSize : Nat) (stridesize : UInt32) (buckets : List FileBucket) : Prop where
  apart : buckets.Pairwise fun a b => a.offset + stridesize.toNat ≤ b.offset ∨ b.offset + stridesize.toNat ≤ a.offset
  above : ∀ b ∈ buckets, offset ≤ b.offset
  inside : maxSize ≠ 0 → ∀ b ∈ buckets, b.offset + stridesize.toNat ≤ offset + maxSize

/-- The call overflows nothing, and where it returns 0 the buckets are sound. -/
def FileBucketsInitSound (offset maxSize : Nat) (stridesize : UInt32) (create : Nat → Int) : Prop :=
  ∃ buckets ret, stateStorageFileBucketsInit offset maxSize stridesize create = some (buckets, ret) ∧
    (ret = 0 → FileBucketsSound offset maxSize stridesize buckets)

/-- The arguments are refused. -/
def FileRefused (maxSize stride : Nat) : Prop := stride = 0 ∨ maxSize ≠ 0 ∧ maxSize < 3 * stride % 2 ^ 32

/-- Twice the stride, which places the third bucket, does not wrap around in
32 bits, or only in front of a bucket that is not there. -/
def ThirdApart (stride : Nat) (create : Nat → Int) : Prop :=
  create 2 = 0 → 2 * stride < 2 ^ 32 ∨ create 0 ≠ 0 ∧ (create 1 ≠ 0 ∨ stride = 2 ^ 31)

/-- The buckets that there are fit an area with an end, where three strides
wrap around when their size is checked. -/
def WrappedInside (maxSize stride : Nat) (create : Nat → Int) : Prop :=
  maxSize ≠ 0 → 2 ^ 32 ≤ 3 * stride → (create 0 = 0 → stride ≤ maxSize) ∧ (create 1 = 0 → 2 * stride ≤ maxSize) ∧
    (create 2 = 0 → 2 * stride % 2 ^ 32 + stride ≤ maxSize)

theorem strideOffset_eq (stridesize : UInt32) {n : Nat} (hn : n < 2 ^ 32) :
    strideOffset stridesize n = n * stridesize.toNat % 2 ^ 32 := by
  rw [strideOffset, UInt32.toNat_mul, UInt32.toNat_ofNat', Nat.mod_eq_of_lt hn]

theorem fileBucketsLoop_eq {offset : Nat} {stridesize : UInt32} {create : Nat → Int} :
    ∀ {ns : List Nat} {nBuckets : Nat},
    (∃ bs, fileBucketsLoop offset stridesize create nBuckets ns = some bs ∧
        (∀ n ∈ ns, offset + strideOffset stridesize n < 2 ^ 63) ∧
      bs.map (·.offset) = (ns.filter (create · = 0)).map (offset + strideOffset stridesize ·)) ∨
    fileBucketsLoop offset stridesize create nBuckets ns = none ∧ ∃ n ∈ ns, 2 ^ 63 ≤ offset + strideOffset stridesize n
  | [], _ => .inl ⟨[], rfl, by simp, rfl⟩
  | n :: ns, nBuckets => by
    rw [fileBucketsLoop]
    by_cases hover : 2 ^ 63 ≤ offset + strideOffset stridesize n
    · exact .inr ⟨by rw [if_pos hover], n, List.mem_cons_self, hover⟩
    rw [if_neg hover]
    by_cases hcreate : create n = 0
    · rw [if_neg (by simp [hcreate])]
      rcases @fileBucketsLoop_eq offset stridesize create ns (nBuckets + 1)
          with ⟨bs, hbs, hlt, hoffs⟩ | ⟨hnone, m, hm, hge⟩
      · exact .inl ⟨_, by rw [hbs]; rfl, List.forall_mem_cons.2 ⟨by omega, hlt⟩, by simp [hcreate, hoffs]⟩
      · exact .inr ⟨by rw [hnone]; rfl, m, List.mem_cons_of_mem _ hm, hge⟩
    · rw [if_pos hcreate]
      rcases @fileBucketsLoop_eq offset stridesize create ns nBuckets with ⟨bs, hbs, hlt, hoffs⟩ | ⟨hnone, m, hm, hge⟩
      · exact .inl ⟨_, hbs, List.forall_mem_cons.2 ⟨by omega, hlt⟩, by simp [hcreate, hoffs]⟩
      · exact .inr ⟨hnone, m, List.mem_cons_of_mem _ hm, hge⟩

theorem fileBucketsSound_iff {offset maxSize : Nat} {stridesize : UInt32} {bs : List FileBucket} {offs : List Nat}
    (h : bs.map (·.offset) = offs) : FileBucketsSound offset maxSize stridesize bs ↔
      offs.Pairwise (fun a b => a + stridesize.toNat ≤ b ∨ b + stridesize.toNat ≤ a) ∧ (∀ a ∈ offs, offset ≤ a) ∧
        (maxSize ≠ 0 → ∀ a ∈ offs, a + stridesize.toNat ≤ offset + maxSize) := by
  subst h
  simp only [List.pairwise_map, List.forall_mem_map]
  exact ⟨fun h => ⟨h.apart, h.above, h.inside⟩, fun ⟨h, h', h''⟩ => ⟨h, h', h''⟩⟩

theorem fileBucketsSound_nil (offset maxSize : Nat) (stridesize : UInt32) :
    FileBucketsSound offset maxSize stridesize [] :=
  ⟨.nil, by simp, by simp⟩

/-- The offsets of the buckets that there are, for a stride that passed the
check. -/
theorem fileOffsets_sound_iff {offset maxSize s : Nat} {create : Nat → Int} (hs : s < 2 ^ 32)
    (hsize : ¬ (maxSize ≠ 0 ∧ maxSize < 3 * s % 2 ^ 32)) {offs : List Nat}
    (hoffs : offs = (List.filter (fun n => decide (create n = 0)) [0, 1, 2]).map (fun n => offset + n * s % 2 ^ 32)) :
    (offs.Pairwise (fun a b => a + s ≤ b ∨ b + s ≤ a) ∧ (∀ a ∈ offs, offset ≤ a) ∧
      (maxSize ≠ 0 → ∀ a ∈ offs, a + s ≤ offset + maxSize)) ↔ ThirdApart s create ∧ WrappedInside maxSize s create := by
  subst hoffs
  have h1 : 1 * s % 2 ^ 32 = s := by omega
  have h2 : 2 * s % 2 ^ 32 = 2 * s ∧ 2 * s < 2 ^ 32 ∨ 2 * s % 2 ^ 32 = 2 * s - 2 ^ 32 ∧ 2 ^ 32 ≤ 2 * s := by omega
  have h3 : maxSize ≠ 0 → 3 * s < 2 ^ 32 → 3 * s ≤ maxSize := fun hm hw => by
    rw [Nat.mod_eq_of_lt hw] at hsize
    omega
  clear hsize
  rw [ThirdApart, WrappedInside]
  rcases h2 with ⟨h2, hw⟩ | ⟨h2, hw⟩ <;> by_cases c0 : create 0 = 0 <;> by_cases c1 : create 1 = 0 <;>
      by_cases c2 : create 2 = 0 <;>
  · simp only [c0, c1, c2, List.filter_cons, List.filter_nil, decide_true, decide_false, if_true, if_false,
        List.map_cons,
      List.map_nil, List.pairwise_cons, List.Pairwise.nil, List.mem_cons, List.not_mem_nil, or_false, false_imp_iff,
      forall_eq_or_imp, forall_eq, Bool.false_eq_true, ne_eq, not_true_eq_false, not_false_eq_true, true_imp_iff,
      implies_true, and_true, true_and, false_and, false_or, true_or, or_true,
      h1, h2, Nat.zero_mul, Nat.zero_mod, Nat.add_zero]
      <;> omega

/-- **Direct buckets do not overlap and stay in their area** exactly if the
arguments are refused or no offset overflows, the third bucket does not wrap
around in front of another one, and what the wrapped size check lets pass has
room. -/
theorem file_buckets_sound_iff {offset maxSize : Nat} {stridesize : UInt32} {create : Nat → Int} :
    FileBucketsInitSound offset maxSize stridesize create ↔ FileRefused maxSize stridesize.toNat ∨
      (offset + stridesize.toNat < 2 ^ 63 ∧ offset + 2 * stridesize.toNat % 2 ^ 32 < 2 ^ 63) ∧
        ThirdApart stridesize.toNat create ∧ WrappedInside maxSize stridesize.toNat create := by
  have hlt := stridesize.toNat_lt
  have h0 := strideOffset_eq stridesize (show 0 < 2 ^ 32 by decide)
  have h1 := strideOffset_eq stridesize (show 1 < 2 ^ 32 by decide)
  have h2 := strideOffset_eq stridesize (show 2 < 2 ^ 32 by decide)
  have h3 := strideOffset_eq stridesize (show desiredBuckets < 2 ^ 32 by decide)
  rw [FileBucketsInitSound, stateStorageFileBucketsInit, FileRefused]
  have hzero : stridesize = 0 ↔ stridesize.toNat = 0 := by
    rw [← UInt32.toNat_inj]
    rfl
  split
  · next hz => exact iff_of_true ⟨_, _, rfl, fun h => absurd h (by decide)⟩ (.inl (.inl (hzero.1 hz)))
  next hz =>
  rw [hzero] at hz
  rw [h3, desiredBuckets]
  split
  · next hsmall => exact iff_of_true ⟨_, _, rfl, fun h => absurd h (by decide)⟩ (.inl (.inr hsmall))
  next hsmall =>
  have hrange : List.range 3 = [0, 1, 2] := rfl
  rw [hrange]
  rcases @fileBucketsLoop_eq offset stridesize create [0, 1, 2] 0 with ⟨bs, hbs, hover, hoffs⟩ | ⟨hnone, n, hn, hge⟩
  · have hoffs' : bs.map (·.offset) = (List.filter (fun n => decide (create n = 0)) [0, 1, 2]).map
        (fun n => offset + n * stridesize.toNat % 2 ^ 32) := by
      rw [hoffs]
      refine List.map_congr_left fun n hn => ?_
      rw [strideOffset_eq stridesize (by have := List.mem_of_mem_filter hn; simp at this; omega)]
    have hsound := (@fileBucketsSound_iff offset maxSize stridesize bs _ hoffs').trans
      (fileOffsets_sound_iff hlt hsmall rfl)
    simp only [List.forall_mem_cons, h0, h1, h2] at hover
    rw [← hsound, hbs, or_iff_right (fun h => h.elim hz hsmall), and_iff_right ⟨by omega, by omega⟩]
    simp only [Option.bind_eq_bind, Option.bind_some]
    by_cases hempty : bs = []
    · subst hempty
      exact iff_of_true ⟨_, _, rfl, fun h => absurd h (by decide)⟩ (fileBucketsSound_nil _ _ _)
    · rw [if_neg (by simpa using hempty)]
      refine ⟨?_, fun h => ⟨_, _, rfl, fun _ => h⟩⟩
      rintro ⟨buckets, ret, heq, h⟩
      cases heq
      exact h rfl
  · rw [hnone]
    refine iff_of_false (fun ⟨_, _, h, _⟩ => by cases h) ?_
    rintro (h | ⟨hover, -⟩)
    · exact h.elim hz hsmall
    · simp only [List.mem_cons, List.not_mem_nil, or_false] at hn
      rcases hn with rfl | rfl | rfl
      · omega
      · omega
      · omega

/-- With a stride of 2 GiB the third copy comes to lie on the first. -/
theorem file_buckets_wrap : stateStorageFileBucketsInit 0 0 0x80000000 (fun _ => 0) =
      some ([⟨0, 0x80000000, 0⟩, ⟨0x80000000, 0x80000000, 1⟩, ⟨0, 0x80000000, 2⟩], 0) ∧
    ¬ FileBucketsInitSound 0 0 0x80000000 fun _ => 0 := by
  have heval : stateStorageFileBucketsInit 0 0 0x80000000 (fun _ => 0) =
      some ([⟨0, 0x80000000, 0⟩, ⟨0x80000000, 0x80000000, 1⟩, ⟨0, 0x80000000, 2⟩], 0) := by decide +kernel
  refine ⟨heval, fun ⟨buckets, ret, he, hsound⟩ => ?_⟩
  cases heval.symm.trans he
  exact absurd (hsound rfl).apart (by decide)

/-! ## Flash -/

/-- `struct mtd_info_user` -/
structure MtdInfoUser where
  size : UInt32
  erasesize : UInt32
  writesize : UInt32

/-- A circular bucket as it is created. -/
structure MtdBucket where
  eraseblock : Nat
  writesize : Nat
  offset : Nat
  num : Nat
deriving DecidableEq

/-- A `size_t` as an `ssize_t`. -/
def toSsize (n : Nat) : Int := if n % 2 ^ 64 < 2 ^ 63 then (n % 2 ^ 64 : Nat) else (n % 2 ^ 64 : Nat) - 2 ^ 64

/-- `end` -/
def mtdEnd (offset maxSize : Nat) (size : Nat) : Int :=
  let stop := toSsize (offset + maxSize)
  if stop = 0 ∨ stop > size then size else stop

/-- `! IS_ALIGNED(offset, erasesize)`: a test of the bits of `erasesize - 1`. -/
def MaskRejects (offset erasesize : Nat) : Prop := offset &&& (erasesize - 1) ≠ 0

instance (offset erasesize : Nat) : Decidable (MaskRejects offset erasesize) := inferInstanceAs (Decidable (_ ≠ _))

/-- The loop of `state_storage_mtd_buckets_init`, at most `n` times, from
`offset`; `create` is what creating a bucket on an eraseblock returns. -/
def mtdBucketsLoop (erasesize writesize : Nat) (stop : Int) (create : Nat → Int) : Nat → Nat → Nat → List MtdBucket
  | 0, _, _ => []
  | n + 1, nBuckets, offset =>
    if (offset : Int) < stop then
      let eraseblock := offset / erasesize % 2 ^ 32
      if create eraseblock ≠ 0 then mtdBucketsLoop erasesize writesize stop create n nBuckets (offset + erasesize)
      else ⟨eraseblock, writesize, offset, nBuckets⟩ ::
        if desiredBuckets ≤ nBuckets + 1 then []
        else mtdBucketsLoop erasesize writesize stop create n (nBuckets + 1) (offset + erasesize)
    else []

/-- `state_storage_mtd_buckets_init`: the buckets and the return value. The
loop ends at the latest after `end - offset` eraseblocks of one byte. -/
def stateStorageMtdBucketsInit (offset maxSize : Nat) (meminfo : MtdInfoUser) (circular : Bool) (create : Nat → Int) :
    List MtdBucket × Int :=
  let stop := mtdEnd offset maxSize meminfo.size.toNat
  if MaskRejects offset meminfo.erasesize.toNat then ([], -EINVAL)
  else
    let writesize := if circular then meminfo.writesize else meminfo.erasesize
    let buckets := mtdBucketsLoop meminfo.erasesize.toNat writesize.toNat stop create (stop.toNat - offset) 0 offset
    if buckets.isEmpty then ([], - EIO) else (buckets, 0)

/-- The eraseblock lies in the area of the storage and in the device. -/
def BlockInside (offset maxSize size erasesize k : Nat) : Prop :=
  offset ≤ k * erasesize ∧ (maxSize ≠ 0 → k * erasesize + erasesize ≤ offset + maxSize) ∧
    k * erasesize + erasesize ≤ size

/-- Where 0 is returned there are one to three buckets in increasing order,
each on an eraseblock inside the area, and only eraseblocks that failed were
skipped; an error is returned only if the offset is not aligned or no
eraseblock of the area can be used. -/
structure MtdBucketsSound (offset maxSize size erasesize : Nat) (create : Nat → Int) (r : List MtdBucket × Int) :
    Prop where
  number : r.2 = 0 → 1 ≤ r.1.length ∧ r.1.length ≤ 3
  increasing : r.2 = 0 → r.1.Pairwise (·.offset < ·.offset)
  aligned : r.2 = 0 → ∀ b ∈ r.1, b.offset = b.eraseblock * erasesize
  inside : r.2 = 0 → ∀ b ∈ r.1, BlockInside offset maxSize size erasesize b.eraseblock
  skipped : r.2 = 0 → ∀ k, BlockInside offset maxSize size erasesize k → create k = 0 →
    (∃ b ∈ r.1, b.eraseblock = k) ∨ r.1.length = 3 ∧ ∀ b ∈ r.1, b.eraseblock < k
  failed : r.2 ≠ 0 → ¬ erasesize ∣ offset ∨ ∀ k, BlockInside offset maxSize size erasesize k → create k ≠ 0

/-- Where the area ends. -/
def areaEnd (offset maxSize size : Nat) : Nat := if maxSize = 0 then size else min (offset + maxSize) size

/-- The loop stops before its first eraseblock: the area has no end, or its
end is no `ssize_t`. -/
def ScansNothing (offset maxSize : Nat) : Prop :=
  if maxSize = 0 then 0 < offset else 2 ^ 63 ≤ offset + maxSize ∧ offset + maxSize ≠ 2 ^ 64

instance (offset maxSize : Nat) : Decidable (ScansNothing offset maxSize) :=
  inferInstanceAs (Decidable (if maxSize = 0 then _ else _ ∧ _))

/-- When the buckets of a flash are sound. An aligned area must be scanned at
all, if there is something in it, and without a bucket on an eraseblock that it
ends in, which three others in front of it prevent; an area that is not must
come to nothing. -/
def MtdFits (offset maxSize size erasesize : Nat) (create : Nat → Int) : Prop :=
  if erasesize ∣ offset then
    if MaskRejects offset erasesize ∨ ScansNothing offset maxSize then
      ∀ k, BlockInside offset maxSize size erasesize k → create k ≠ 0
    else
      let stop := areaEnd offset maxSize size
      stop < offset ∨ erasesize ∣ stop ∨ create (stop / erasesize) ≠ 0 ∨
        3 ≤ ((List.range (stop / erasesize)).filter fun k => offset ≤ k * erasesize ∧ create k = 0).length
  else
    MaskRejects offset erasesize ∨ ScansNothing offset maxSize ∨
      ∀ j, offset + j * erasesize < areaEnd offset maxSize size → create (offset / erasesize + j) ≠ 0

/-! ## The scan -/

/-- The first `n` numbers of an increasing list are those with fewer than `n`
in front. -/
theorem mem_take_iff {l : List Nat} (h : l.Pairwise (· < ·)) {n x : Nat} :
    x ∈ l.take n ↔ x ∈ l ∧ (l.filter (· < x)).length < n := by
  induction l generalizing n with
  | nil => simp
  | cons a l ih =>
    rw [List.pairwise_cons] at h
    cases n with
    | zero => simp
    | succ n =>
      rw [List.take_succ_cons, List.mem_cons, List.mem_cons, ih h.2]
      by_cases hxa : x = a
      · have hnone : l.filter (· < a) = [] := List.filter_eq_nil_iff.2 fun y hy => by
          have := h.1 y hy
          simp only [decide_eq_true_eq]
          omega
        subst hxa
        simp [hnone]
      · by_cases hx : x ∈ l
        · simp [hxa, hx, h.1 x hx]
        · simp [hxa, hx]

section
variable {e w : Nat} {stop : Int} {create : Nat → Int}

theorem mtdBucketsLoop_eraseblock : ∀ {n nBuckets offset : Nat}, ∀ b ∈ mtdBucketsLoop e w stop create n nBuckets offset,
    b.eraseblock = b.offset / e % 2 ^ 32
  | 0, _, _, b, hb => by cases hb
  | n + 1, nBuckets, offset, b, hb => by
    rw [mtdBucketsLoop] at hb
    split at hb
    · simp only at hb
      split at hb
      · exact mtdBucketsLoop_eraseblock b hb
      · rcases List.mem_cons.1 hb with rfl | hb
        · rfl
        · split at hb
          · cases hb
          · exact mtdBucketsLoop_eraseblock b hb
    · cases hb

/-- The offsets at which a bucket can be created, of the first `n`. -/
def opened (e : Nat) (stop : Int) (create : Nat → Int) (n offset : Nat) : List Nat :=
  ((List.range n).map (offset + · * e)).filter fun off => (off : Int) < stop ∧ create (off / e % 2 ^ 32) = 0

theorem opened_succ (n offset : Nat) : opened e stop create (n + 1) offset =
    (if (offset : Int) < stop ∧ create (offset / e % 2 ^ 32) = 0 then [offset] else []) ++ opened e stop create n
        (offset + e) := by
  have htail : ((List.range n).map Nat.succ).map (offset + · * e) = (List.range n).map (offset + e + · * e) := by
    rw [List.map_map]
    refine List.map_congr_left fun j _ => ?_
    simp only [Function.comp, Nat.succ_eq_add_one, Nat.add_mul]
    omega
  rw [opened, List.range_succ_eq_map, List.map_cons, htail, Nat.zero_mul, Nat.add_zero, List.filter_cons]
  simp only [decide_eq_true_eq]
  split <;> rfl

theorem opened_behind {n offset : Nat} (h : stop ≤ offset) : opened e stop create n offset = [] := by
  rw [opened, List.filter_eq_nil_iff]
  intro off hoff
  obtain ⟨j, -, rfl⟩ := List.mem_map.1 hoff
  have := Nat.zero_le (j * e)
  simp only [decide_eq_true_eq, not_and]
  omega

theorem mtdBucketsLoop_offsets : ∀ {n nBuckets offset : Nat}, nBuckets < 3 →
    (mtdBucketsLoop e w stop create n nBuckets offset).map (·.offset) =
        (opened e stop create n offset).take (3 - nBuckets)
  | 0, _, _, _ => by simp [mtdBucketsLoop, opened]
  | n + 1, nBuckets, offset, hlt => by
    rw [mtdBucketsLoop]
    split
    · next hin =>
      rw [opened_succ]
      simp only
      by_cases hc : create (offset / e % 2 ^ 32) = 0
      · rw [if_neg (not_not.2 hc), if_pos (And.intro hin hc), List.singleton_append,
          show 3 - nBuckets = 3 - (nBuckets + 1) + 1 by omega, List.take_succ_cons, List.map_cons]
        congr 1
        split
        · next hfull =>
          rw [show 3 - (nBuckets + 1) = 0 by rw [desiredBuckets] at hfull; omega, List.take_zero, List.map_nil]
        · next hmore => exact mtdBucketsLoop_offsets (by rw [desiredBuckets] at hmore; omega)
      · rw [if_pos hc, if_neg (fun h => hc h.2), List.nil_append]
        exact mtdBucketsLoop_offsets hlt
    · next hout => rw [opened_behind (by omega), List.take_nil, List.map_nil]

theorem opened_sorted (he : 0 < e) (n offset : Nat) : (opened e stop create n offset).Pairwise (· < ·) := by
  refine List.Pairwise.filter _ (List.pairwise_map.2 ?_)
  exact List.pairwise_lt_range.imp fun hab => Nat.add_lt_add_left (Nat.mul_lt_mul_of_pos_right hab he) _

end

/-- What is opened, with enough steps and an end that is a 32-bit number. -/
theorem mem_opened {e stop : Nat} (he : 0 < e) (hstop : stop < 2 ^ 32) {create : Nat → Int} {offset off : Nat} :
    off ∈ opened e stop create (stop - offset) offset ↔
      (∃ j, off = offset + j * e) ∧ off < stop ∧ create (off / e) = 0 := by
  have hmod : off < stop → off / e % 2 ^ 32 = off / e := fun h =>
    Nat.mod_eq_of_lt ((Nat.div_le_self _ _).trans_lt (by omega))
  simp only [opened, List.mem_filter, List.mem_map, List.mem_range, decide_eq_true_eq, Nat.cast_lt]
  constructor
  · rintro ⟨⟨j, -, rfl⟩, hlt, hc⟩
    exact ⟨⟨j, rfl⟩, hlt, hmod hlt ▸ hc⟩
  · rintro ⟨⟨j, rfl⟩, hlt, hc⟩
    have := Nat.le_mul_of_pos_right j he
    exact ⟨⟨j, by omega, rfl⟩, hlt, (hmod hlt).symm ▸ hc⟩

/-! ## The end -/

theorem toSsize_small {n : Nat} (h : n < 2 ^ 63) : toSsize n = n := by
  rw [toSsize, Nat.mod_eq_of_lt (by omega), if_pos h]

theorem toSsize_big {n : Nat} (h : 2 ^ 63 ≤ n) (hlt : n < 2 ^ 63 + 2 ^ 64) : toSsize n = n - 2 ^ 64 := by
  rw [toSsize]
  split <;> omega

theorem mtdEnd_scans {offset maxSize size : Nat} (hs : size < 2 ^ 32) (h : ¬ ScansNothing offset maxSize) :
    mtdEnd offset maxSize size = areaEnd offset maxSize size := by
  rw [ScansNothing] at h
  simp only [mtdEnd, areaEnd]
  split at h
  · next h0 =>
    have h0' : offset = 0 := by omega
    subst h0 h0'
    simp [toSsize]
  · next h0 =>
    rw [if_neg h0]
    by_cases hbig : 2 ^ 63 ≤ offset + maxSize
    · have hexact : offset + maxSize = 2 ^ 64 := by
        by_contra hne
        exact h ⟨hbig, hne⟩
      rw [hexact, show toSsize (2 ^ 64) = 0 from rfl, if_pos (.inl rfl), Nat.min_eq_right (by omega)]
    · rw [toSsize_small (by omega)]
      split <;> omega

theorem mtdEnd_nothing {offset maxSize size : Nat} (hm : maxSize < 2 ^ 64) (ho : offset < 2 ^ 63)
    (h : ScansNothing offset maxSize) : mtdEnd offset maxSize size ≤ offset := by
  rw [ScansNothing] at h
  simp only [mtdEnd]
  split at h
  · next h0 =>
    rw [h0, Nat.add_zero, toSsize_small ho]
    split <;> omega
  · next h0 =>
    rw [toSsize_big h.1 (by omega)]
    split <;> omega

/-! ## Flash buckets -/

section
variable {offset maxSize size e w : Nat} {create : Nat → Int}

/-- The area, for an eraseblock that begins in it. -/
theorem blockInside_iff {k : Nat} : BlockInside offset maxSize size e k ↔
    offset ≤ k * e ∧ k * e + e ≤ areaEnd offset maxSize size := by
  rw [BlockInside, areaEnd]
  split
  · next h0 => simp [h0]
  · next h0 => simp [h0]

theorem areaEnd_le : areaEnd offset maxSize size ≤ size := by
  rw [areaEnd]
  split <;> omega

theorem mtdBucketsSound_error {ret : Int} (hret : ret ≠ 0) : MtdBucketsSound offset maxSize size e create ([], ret) ↔
    ¬ e ∣ offset ∨ ∀ k, BlockInside offset maxSize size e k → create k ≠ 0 := by
  refine ⟨fun h => h.failed hret, fun h => ?_⟩
  exact ⟨fun h0 => absurd h0 hret, fun h0 => absurd h0 hret, fun h0 => absurd h0 hret, fun h0 => absurd h0 hret,
    fun h0 => absurd h0 hret, fun _ => h⟩

/-- What the loop created, and where it could have. -/
structure Scanned (offset stop e : Nat) (create : Nat → Int) (buckets : List MtdBucket) (offs : List Nat) : Prop where
  offsets : buckets.map (·.offset) = offs.take 3
  block : ∀ b ∈ buckets, b.eraseblock = b.offset / e
  mem : ∀ off, off ∈ offs ↔ (∃ j, off = offset + j * e) ∧ off < stop ∧ create (off / e) = 0
  sorted : offs.Pairwise (· < ·)

theorem scanned_loop {stop : Nat} (he : 0 < e) (hstop : stop < 2 ^ 32) :
    Scanned offset stop e create (mtdBucketsLoop e w stop create (stop - offset) 0 offset)
      (opened e stop create (stop - offset) offset) := by
  have hoffs := @mtdBucketsLoop_offsets e w stop create (stop - offset) 0 offset (by decide)
  refine ⟨hoffs, fun b hb => ?_, fun _ => mem_opened he hstop, opened_sorted he _ _⟩
  have hmem : b.offset ∈ opened e stop create (stop - offset) offset :=
    List.mem_of_mem_take (hoffs ▸ List.mem_map_of_mem hb)
  have hlt := ((mem_opened he hstop).1 hmem).2.1
  rw [mtdBucketsLoop_eraseblock b hb]
  exact Nat.mod_eq_of_lt ((Nat.div_le_self _ _).trans_lt (by omega))

variable {stop : Nat} {buckets : List MtdBucket} {offs : List Nat}

theorem Scanned.mem_buckets (h : Scanned offset stop e create buckets offs) {b : MtdBucket} (hb : b ∈ buckets) :
    b.offset ∈ offs.take 3 := h.offsets ▸ List.mem_map_of_mem hb

theorem Scanned.exists_bucket (h : Scanned offset stop e create buckets offs) {off : Nat} (hoff : off ∈ offs.take 3) :
    ∃ b ∈ buckets, b.offset = off := List.mem_map.1 (h.offsets ▸ hoff)

/-- In an aligned area the offsets are those of eraseblocks. -/
theorem Scanned.mem_block (h : Scanned offset stop e create buckets offs) (he : 0 < e) (ha : e ∣ offset) {k : Nat} :
    k * e ∈ offs ↔ offset ≤ k * e ∧ k * e < stop ∧ create k = 0 := by
  rw [h.mem, Nat.mul_div_cancel _ he]
  refine and_congr_left fun _ => ⟨fun ⟨j, hj⟩ => by omega, fun hle => ?_⟩
  obtain ⟨a, rfl⟩ := ha
  rw [Nat.mul_comm e a] at hle ⊢
  have hak : a ≤ k := Nat.le_of_mul_le_mul_right hle he
  exact ⟨k - a, by rw [← Nat.add_mul, Nat.add_sub_cancel' hak]⟩

theorem Scanned.aligned (h : Scanned offset stop e create buckets offs) (ha : e ∣ offset) {off : Nat}
    (hoff : off ∈ offs) :
    off / e * e = off := by
  obtain ⟨⟨j, rfl⟩, -⟩ := (h.mem off).1 hoff
  exact Nat.div_mul_cancel (Nat.dvd_add ha (Nat.dvd_mul_left e j))

theorem Scanned.count (h : Scanned offset stop e create buckets offs) (he : 0 < e) (ha : e ∣ offset) {k : Nat}
    (hk : k * e ≤ stop) :
    (offs.filter (· < k * e)).length = ((List.range k).filter fun i => offset ≤ i * e ∧ create i = 0).length := by
  have hperm : (offs.filter (· < k * e)).Perm (((List.range k).filter fun i => offset ≤ i * e ∧ create i = 0).map
      (· * e)) := by
    rw [List.perm_ext_iff_of_nodup]
    · intro off
      simp only [List.mem_filter, List.mem_map, List.mem_range, decide_eq_true_eq]
      constructor
      · rintro ⟨hoff, hlt⟩
        have hblock := h.aligned ha hoff
        rw [← hblock, h.mem_block he ha] at hoff
        rw [← hblock] at hlt
        exact ⟨off / e, ⟨Nat.lt_of_mul_lt_mul_right hlt, hoff.1, hoff.2.2⟩, hblock⟩
      · rintro ⟨i, ⟨hik, hle, hc⟩, rfl⟩
        have hlt : i * e < k * e := Nat.mul_lt_mul_of_pos_right hik he
        exact ⟨(h.mem_block he ha).2 ⟨hle, by omega, hc⟩, hlt⟩
    · exact (h.sorted.filter _).imp fun hab => Nat.ne_of_lt hab
    · exact List.Nodup.map (fun a b hab => Nat.eq_of_mul_eq_mul_right he hab) (List.nodup_range.filter _)
  rw [hperm.length_eq, List.length_map]

/-- A bucket lies on the eraseblock that the area ends in. -/
def OnPartial (offset stop e : Nat) (create : Nat → Int) : Prop :=
  offset ≤ stop ∧ ¬ e ∣ stop ∧ create (stop / e) = 0 ∧
    ((List.range (stop / e)).filter fun k => offset ≤ k * e ∧ create k = 0).length < 3

theorem Scanned.onPartial (h : Scanned offset stop e create buckets offs) (he : 0 < e) (ha : e ∣ offset) :
    stop / e * e ∈ offs.take 3 ↔ OnPartial offset stop e create := by
  have hle : stop / e * e ≤ stop := Nat.div_mul_le_self stop e
  rw [mem_take_iff h.sorted, h.mem_block he ha, h.count he ha hle, OnPartial, and_assoc, and_assoc]
  refine and_congr ?_ (and_congr_left fun _ => ?_)
  · refine ⟨fun hlo => hlo.trans hle, fun hlo => ?_⟩
    obtain ⟨a, rfl⟩ := ha
    rw [Nat.mul_comm e a] at hlo ⊢
    exact Nat.mul_le_mul_right e ((Nat.le_div_iff_mul_le he).2 hlo)
  · rw [Nat.dvd_iff_div_mul_eq]
    omega

/-- In an aligned area only that bucket can be wrong. -/
theorem Scanned.sound_iff (h : Scanned offset (areaEnd offset maxSize size) e create buckets offs) (he : 0 < e)
    (ha : e ∣ offset)
    (hne : buckets ≠ []) :
    MtdBucketsSound offset maxSize size e create (buckets, 0) ↔
        ¬ OnPartial offset (areaEnd offset maxSize size) e create := by
  rw [← h.onPartial he ha]
  have hlen : buckets.length = (offs.take 3).length := by rw [← h.offsets, List.length_map]
  have hpos := List.length_pos_iff.2 hne
  constructor
  · intro hs hmem
    obtain ⟨b, hb, hoff⟩ := h.exists_bucket hmem
    have hin := (blockInside_iff.1 (hs.inside rfl b hb)).2
    rw [h.block b hb, hoff, Nat.mul_div_cancel _ he] at hin
    have := Nat.lt_div_mul_add he (a := areaEnd offset maxSize size)
    omega
  · intro hno
    have hoff {b : MtdBucket} (hb : b ∈ buckets) := h.mem_buckets hb
    have haligned : ∀ b ∈ buckets, b.offset = b.eraseblock * e := fun b hb => by
      rw [h.block b hb, h.aligned ha (List.mem_of_mem_take (hoff hb))]
    refine ⟨fun _ => ⟨hpos, ?_⟩, fun _ => ?_, fun _ => haligned, fun _ b hb => ?_, fun _ k hk hc => ?_,
        fun h0 => absurd rfl h0⟩
    · rw [hlen]
      exact List.length_take_le _ _
    · have hsorted : (buckets.map (·.offset)).Pairwise (· < ·) := by
        rw [h.offsets]
        exact h.sorted.sublist (List.take_sublist _ _)
      exact List.pairwise_map.1 hsorted
    · have hmem := hoff hb
      rw [haligned b hb] at hmem
      obtain ⟨hlo, hlt, -⟩ := (h.mem_block he ha).1 (List.mem_of_mem_take hmem)
      refine blockInside_iff.2 ⟨hlo, ?_⟩
      by_contra hover
      have hlast : areaEnd offset maxSize size / e = b.eraseblock :=
          Nat.div_eq_of_lt_le (by omega) (by rw [Nat.add_mul]; omega)
      rw [hlast] at hno
      exact hno hmem
    · obtain ⟨hlo, hhi⟩ := blockInside_iff.1 hk
      have hmem := (h.mem_block he ha).2 ⟨hlo, by omega, hc⟩
      by_cases htake : k * e ∈ offs.take 3
      · obtain ⟨b, hb, hbk⟩ := h.exists_bucket htake
        exact .inl ⟨b, hb, by rw [h.block b hb, hbk, Nat.mul_div_cancel _ he]⟩
      · have hfront : ¬ (offs.filter (· < k * e)).length < 3 := fun hlt => htake ((mem_take_iff h.sorted).2 ⟨hmem, hlt⟩)
        have hlong := (List.length_filter_le (· < k * e) offs)
        refine .inr ⟨by rw [hlen, List.length_take]; omega, fun b hb => ?_⟩
        have hb' := (mem_take_iff h.sorted).1 (hoff hb)
        by_contra hge
        have hle : k * e ≤ b.offset := by
          rw [haligned b hb]
          exact Nat.mul_le_mul_right e (by omega)
        have hsub : (offs.filter (· < k * e)).length ≤ (offs.filter (· < b.offset)).length :=
          (List.monotone_filter_right offs fun x hx => by simp only [decide_eq_true_eq] at hx ⊢; omega).length_le
        omega

theorem Scanned.nil (h : Scanned offset stop e create [] offs) : offs = [] := by
  have h3 := h.offsets
  rw [List.map_nil, eq_comm, List.take_eq_nil_iff] at h3
  exact h3.resolve_left (by decide)

theorem Scanned.fits_iff (h : Scanned offset (areaEnd offset maxSize size) e create buckets offs) (he : 0 < e) :
    MtdBucketsSound offset maxSize size e create (if buckets.isEmpty then ([], - EIO) else (buckets, 0)) ↔
      if e ∣ offset then ¬ OnPartial offset (areaEnd offset maxSize size) e create
      else ∀ j, offset + j * e < areaEnd offset maxSize size → create (offset / e + j) ≠ 0 := by
  by_cases hempty : buckets = []
  · subst hempty
    rw [List.isEmpty_nil, if_pos rfl, mtdBucketsSound_error (by decide)]
    have hnil := h.nil
    split
    · next ha =>
      refine iff_of_true (.inr fun k hk hc => ?_) fun hp => ?_
      · obtain ⟨hlo, hhi⟩ := blockInside_iff.1 hk
        have hmem := (h.mem_block he ha).2 ⟨hlo, by omega, hc⟩
        rw [hnil] at hmem
        cases hmem
      · have hmem := (h.onPartial he ha).2 hp
        rw [hnil] at hmem
        cases hmem
    · next ha =>
      refine iff_of_true (.inl ha) fun j hj hc => ?_
      have hmem := (h.mem (offset + j * e)).2 ⟨⟨j, rfl⟩, hj, by rwa [Nat.add_mul_div_right _ _ he]⟩
      rw [hnil] at hmem
      cases hmem
  · rw [if_neg (by simpa using hempty)]
    split
    · next ha => exact h.sound_iff he ha hempty
    · next ha =>
      obtain ⟨b, hb⟩ := List.exists_mem_of_ne_nil _ hempty
      obtain ⟨⟨j, hj⟩, hlt, hc⟩ := (h.mem b.offset).1 (List.mem_of_mem_take (h.mem_buckets hb))
      refine iff_of_false (fun hs => ha ?_) fun hall => ?_
      · have halign := hs.aligned rfl b hb
        rw [hj] at halign
        exact (Nat.dvd_add_left (Nat.dvd_mul_left e j)).1 (halign ▸ Nat.dvd_mul_left e b.eraseblock)
      · rw [hj, Nat.add_mul_div_right _ _ he] at hc
        exact hall j (hj ▸ hlt) hc

end

/-- **Flash buckets lie inside their area** exactly if the area is scanned when
there is something in it, without a bucket on an eraseblock that it ends in, and
comes to nothing when it is not aligned. -/
theorem mtd_buckets_sound_iff {offset maxSize : Nat} (ho : offset < 2 ^ 63) (hm : maxSize < 2 ^ 64)
    {meminfo : MtdInfoUser}
    (he : meminfo.erasesize ≠ 0) (circular : Bool) (create : Nat → Int) :
    MtdBucketsSound offset maxSize meminfo.size.toNat meminfo.erasesize.toNat create
        (stateStorageMtdBucketsInit offset maxSize meminfo circular create) ↔
      MtdFits offset maxSize meminfo.size.toNat meminfo.erasesize.toNat create := by
  have he' : 0 < meminfo.erasesize.toNat := Nat.pos_of_ne_zero fun h0 => he (UInt32.toNat_inj.1 h0)
  have hs := meminfo.size.toNat_lt
  rw [MtdFits]
  simp only [stateStorageMtdBucketsInit]
  generalize (if circular then meminfo.writesize else meminfo.erasesize).toNat = w
  generalize meminfo.erasesize.toNat = e at he' ⊢
  generalize meminfo.size.toNat = size at hs ⊢
  have herror {ret : Int} (hret : ret ≠ 0) : MtdBucketsSound offset maxSize size e create ([], ret) ↔
      if e ∣ offset then ∀ k, BlockInside offset maxSize size e k → create k ≠ 0 else True := by
    rw [mtdBucketsSound_error hret]
    split
    · next ha => simp [ha]
    · next ha => simp [ha]
  by_cases hmask : MaskRejects offset e
  · simp only [hmask, if_true, true_or]
    exact herror (by decide)
  simp only [hmask, if_false, false_or]
  by_cases hnone : ScansNothing offset maxSize
  · have hstop := @mtdEnd_nothing offset maxSize size hm ho hnone
    have hnil : mtdBucketsLoop e w (mtdEnd offset maxSize size) create
        ((mtdEnd offset maxSize size).toNat - offset) 0 offset = [] := by
      rw [show (mtdEnd offset maxSize size).toNat - offset = 0 by omega]
      rfl
    rw [hnil, List.isEmpty_nil, if_pos rfl]
    simp only [hnone, if_true, true_or]
    exact herror (by decide)
  · simp only [hnone, if_false, false_or, mtdEnd_scans hs hnone, Int.toNat_natCast]
    have hend := (@areaEnd_le offset maxSize size).trans_lt hs
    rw [(scanned_loop he' hend).fits_iff he']
    split
    · rw [OnPartial]
      simp only [not_and_or, not_le, not_lt, not_not, ne_eq]
    · rfl

/-- The last two eraseblocks of a flash with four, of which the first is bad. -/
theorem mtd_buckets_tail : MtdBucketsSound 0x20000 0x20000 0x40000 0x10000 (fun k => if k = 2 then - EIO else 0)
    (stateStorageMtdBucketsInit 0x20000 0x20000 ⟨0x40000, 0x10000, 1⟩ true fun k => if k = 2 then - EIO else 0) :=
  (@mtd_buckets_sound_iff 0x20000 0x20000 (by decide) (by decide) ⟨0x40000, 0x10000, 1⟩ (by decide) true _).2 (by
    rw [MtdFits, if_pos (by decide), if_neg (by decide)]
    exact .inr (.inl (by decide)))

/-- Without a size nothing is found behind the beginning of the device. -/
theorem mtd_buckets_unlimited : stateStorageMtdBucketsInit 0x10000 0 ⟨0x40000, 0x10000, 1⟩ true (fun _ => 0) =
    ([], - EIO) ∧
    ¬ MtdBucketsSound 0x10000 0 0x40000 0x10000 (fun _ => 0)
      (stateStorageMtdBucketsInit 0x10000 0 ⟨0x40000, 0x10000, 1⟩ true fun _ => 0) := by
  have heval : stateStorageMtdBucketsInit 0x10000 0 ⟨0x40000, 0x10000, 1⟩ true (fun _ => 0) = ([], - EIO) := by
      decide +kernel
  refine ⟨heval, fun h => ?_⟩
  rw [heval] at h
  rcases h.failed (by decide) with hno | hall
  · exact hno (by decide)
  · exact hall 1 ⟨by decide, by decide, by decide⟩ rfl

end DtUtils
