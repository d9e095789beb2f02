/-
Direct buckets lie side by side in one file, a stride apart, and whether one
of them stays inside its stride: the pieces of the file that its read and its
write transfer (`Span`), and what a write leaves for the read that follows.

`state_backend_bucket_direct_read` takes every length word up to the stride
without counting the eight bytes of the metadata in front of the data. A
length word within eight bytes of the stride makes it read the start of the
next bucket. In `state_backend_bucket_direct_write` the subtraction of the
metadata's size wraps for a stride below eight bytes, and the metadata go
over the next bucket; a backward compatible build checks no length at all
once there is no head room. `direct_stays_iff` says which strides, payloads
and contents meet none of these.
-/
import DtUtils.Direct

namespace DtUtils
open Lib

/-- A piece of the file that a request transfers, from the bucket's offset
on. -/
structure Span where
  pos : Nat
  len : Nat
deriving DecidableEq, Repr

/-- All its bytes come before `n`. -/
def Span.Inside (n : Nat) (s : Span) : Prop := ∀ i, s.pos ≤ i → i < s.pos + s.len → i < n

theorem Span.inside_iff {n : Nat} {s : Span} : s.Inside n ↔ s.len = 0 ∨ s.pos + s.len ≤ n := by
  constructor
  · intro h
    have := h (s.pos + s.len - 1)
    omega
  · intro h i h₁ h₂
    omega

/-- The pieces that `state_backend_bucket_direct_read` delivers. -/
def bucketDirectReadSpans (env : Env) (d : BucketDirect) : List Span :=
  let (env, ret, got) := directReadFull env d 0 directMetaSize
  let span (pos len : Nat) : Span := ⟨pos, (directReadFull env d pos len).2.2.length⟩
  if ret < 0 then [⟨0, got.length⟩]
  else
    let header := directReadMeta env got
    let readLen := leNat (slice 4 4 header)
    if leNat (header.take 4) = directMagic then
      if d.maxSize < readLen then [⟨0, got.length⟩]
      else [⟨0, got.length⟩, span got.length readLen]
    else if d.compat then [⟨0, got.length⟩, span 0 d.maxSize]
    else [⟨0, got.length⟩]

/-- The pieces that `state_backend_bucket_direct_write` transfers. -/
def bucketDirectWriteSpans (env : Env) (d : BucketDirect) (buf : Bytes) : List Span :=
  if d.headRoom buf.length then
    let (env, d, ret, pos) := directWriteFull env d 0 (directMeta buf.length)
    if ret < 0 then [⟨0, pos⟩] else [⟨0, pos⟩, ⟨pos, (directWriteFull env d pos buf).2.2.2⟩]
  else if d.compat then [⟨0, (directWriteFull env d 0 buf).2.2.2⟩]
  else []

/-! ## A read sees nothing but its spans -/

theorem slice_length_self (pos k : Nat) (l : Bytes) : slice pos (slice pos k l).length l = slice pos k l := by
  have h : slice pos (slice pos k l).length l = (slice pos k l).take (slice pos k l).length := by
    simp only [slice, List.take_take, List.length_take, Nat.min_comm k]
    rw [List.take_eq_take_iff]
    simp
  rw [h, List.take_length]

/-- Which bytes are delivered depends on how many there are. -/
theorem readFull_agree (env : Env) {avail avail' : Bytes} (hlen : avail'.length = avail.length) :
    ∃ env' ret k, readFull env avail = (env', ret, avail.take k) ∧
        readFull env avail' = (env', ret, avail'.take k) := by
  unfold readFull
  repeat' split
  · exact ⟨_, _, avail.length, by rw [List.take_length], by rw [hlen, ← hlen, List.take_length]⟩
  · exact ⟨_, _, _, rfl, by rw [List.length_take, List.length_take, hlen]⟩
  · exact ⟨_, _, _, rfl, rfl⟩
  · exact ⟨_, _, 0, rfl, rfl⟩
  · exact ⟨_, _, 0, rfl, rfl⟩

theorem directReadFull_agree (env : Env) {d d' : BucketDirect} (hlen : d'.area.length = d.area.length) (pos len : Nat) :
    ∃ env' ret k, directReadFull env d pos len = (env', ret, slice pos k d.area) ∧
      directReadFull env d' pos len = (env', ret, slice pos k d'.area) ∧ k ≤ len := by
  unfold directReadFull
  by_cases h0 : len = 0
  · rw [if_pos h0, if_pos h0]
    exact ⟨env, 0, 0, by simp [slice], by simp [slice], Nat.zero_le _⟩
  · rw [if_neg h0, if_neg h0]
    obtain ⟨env', ret, k, h, h'⟩ := @readFull_agree env (slice pos len d.area) (slice pos len d'.area)
      (by simp only [slice, List.length_take, List.length_drop, hlen])
    have htake : ∀ l : Bytes, (slice pos len l).take k = slice pos (min k len) l := fun l => by
      rw [slice, List.take_take]
      rfl
    rw [h, h', htake, htake]
    exact ⟨env', _, _, rfl, rfl, Nat.min_le_right _ _⟩

/-- The requests of two files of one length that have the delivered bytes in
common. -/
theorem directReadFull_footprint {env : Env} {d d' : BucketDirect} (hlen : d'.area.length = d.area.length)
    {pos len : Nat}
    (h : slice pos (directReadFull env d pos len).2.2.length d'.area =
      slice pos (directReadFull env d pos len).2.2.length d.area) :
    directReadFull env d' pos len = directReadFull env d pos len := by
  obtain ⟨env', ret, k, hr, hr', -⟩ := directReadFull_agree env hlen pos len
  have hcount : (slice pos k d'.area).length = (slice pos k d.area).length := by
    simp only [slice, List.length_take, List.length_drop, hlen]
  rw [hr] at h
  rw [hr, hr', ← slice_length_self pos k d'.area, hcount, h, slice_length_self]

theorem directReadData_footprint {env : Env} {d d' : BucketDirect} (hlen : d'.area.length = d.area.length)
    {pos len : Nat}
    (h : slice pos (directReadFull env d pos len).2.2.length d'.area =
      slice pos (directReadFull env d pos len).2.2.length d.area) :
    ∃ env' ret out, directReadData env d pos len = (env', d, ret, out) ∧
      directReadData env d' pos len = (env', d', ret, out) := by
  simp only [directReadData, directReadFull_footprint hlen h]
  split
  · exact ⟨_, _, _, rfl, rfl⟩
  · exact ⟨_, _, _, rfl, rfl⟩

/-- What a read returns is decided by the bytes of its spans: the rest of the
file may hold anything. -/
theorem bucketDirectRead_footprint {env : Env} {d : BucketDirect} {area : Bytes} (hlen : area.length = d.area.length)
    (h : ∀ s ∈ bucketDirectReadSpans env d, slice s.pos s.len area = slice s.pos s.len d.area) :
    ∃ env' d' ret out, bucketDirectRead env d = (env', d', ret, out) ∧
      bucketDirectRead env { d with area } = (env', { d' with area }, ret, out) := by
  have hfirst : directReadFull env { d with area } 0 directMetaSize = directReadFull env d 0 directMetaSize := by
    refine directReadFull_footprint hlen (h ⟨0, _⟩ ?_)
    simp only [bucketDirectReadSpans]
    repeat' split
    all_goals exact List.mem_cons_self ..
  simp only [bucketDirectRead, bucketDirectReadSpans, hfirst] at h ⊢
  generalize directReadFull env d 0 directMetaSize = first at h ⊢
  obtain ⟨env₁, ret, got⟩ := first
  by_cases hneg : ret < 0
  · simp only [hneg, if_true]
    exact ⟨_, _, _, _, rfl, rfl⟩
  by_cases hmagic : leNat ((directReadMeta env₁ got).take 4) = directMagic
  · by_cases hbig : d.maxSize < leNat (slice 4 4 (directReadMeta env₁ got))
    · simp only [hneg, hmagic, hbig, if_true, if_false]
      exact ⟨_, _, _, _, rfl, rfl⟩
    · simp only [hneg, hmagic, hbig, if_true, if_false] at h ⊢
      obtain ⟨env', ret, out, hd, hd'⟩ := @directReadData_footprint env₁ d { d with area } hlen _ _
        (h ⟨_, _⟩ (List.mem_cons_of_mem _ (List.mem_cons_self ..)))
      exact ⟨env', d, ret, out, hd, hd'⟩
  · cases hc : d.compat with
    | false =>
      simp only [hneg, hmagic, hc, BucketDirect.noteMagic, if_false, Bool.false_eq_true]
      exact ⟨_, _, _, _, rfl, rfl⟩
    | true =>
      simp only [hneg, hmagic, hc, BucketDirect.noteMagic, if_true, if_false] at h ⊢
      obtain ⟨env', ret, out, hd, hd'⟩ := @directReadData_footprint env₁
        (d.noteMagic (leNat ((directReadMeta env₁ got).take 4)))
        { d.noteMagic (leNat ((directReadMeta env₁ got).take 4)) with area } hlen _ _
        (h ⟨_, _⟩ (List.mem_cons_of_mem _ (List.mem_cons_self ..)))
      simp only [BucketDirect.noteMagic] at hd hd'
      rw [hc] at hd hd'
      exact ⟨env', _, ret, out, hd, hd'⟩

/-! ## A write changes nothing but its spans -/

/-- A write takes some first bytes of its data, and keeps the bucket's
settings. -/
theorem directWriteFull_taken (env : Env) (d : BucketDirect) (pos : Nat) (data : Bytes) :
    ∃ env' ret k, directWriteFull env d pos data =
      (env', { d with area := splice pos (data.take k) d.area }, ret, (data.take k).length) := by
  unfold directWriteFull
  split
  · next h0 =>
    subst h0
    exact ⟨env, 0, 0, by simp⟩
  split
  · exact ⟨env, -1, 0, by simp⟩
  · obtain ⟨k, hk, -⟩ := writeFull_taken env data
    generalize writeFull env data = taken at hk ⊢
    obtain ⟨env', ret, bs⟩ := taken
    exact ⟨env', cInt ret, k, by rw [← hk]⟩

theorem directWriteFull_le (env : Env) (d : BucketDirect) (pos : Nat) (data : Bytes) :
    (directWriteFull env d pos data).2.2.2 ≤ data.length := by
  obtain ⟨env', ret, k, h⟩ := directWriteFull_taken env d pos data
  rw [h, List.length_take]
  exact Nat.min_le_right _ _

theorem directWriteFull_readonly {env : Env} {d : BucketDirect} {pos : Nat} {data : Bytes} (h : d.readonly = true) :
    (directWriteFull env d pos data).2.2.2 = 0 := by
  unfold directWriteFull
  split
  · rfl
  · rfl

theorem directWriteFull_frame {env : Env} {d : BucketDirect} {pos : Nat} {data : Bytes} (hpos : pos ≤ d.area.length)
    {i : Nat}
    (hi : i < pos ∨ pos + (directWriteFull env d pos data).2.2.2 ≤ i) :
    (directWriteFull env d pos data).2.1.area[i]? = d.area[i]? := by
  obtain ⟨env', ret, k, h⟩ := directWriteFull_taken env d pos data
  rw [h] at hi ⊢
  simp only [getElem?_splice hpos]
  split
  · rfl
  · rw [if_neg (by simp only at hi; omega)]

theorem directWriteData_area (env : Env) (d : BucketDirect) (pos : Nat) (buf : Bytes) :
    (directWriteData env d pos buf).2.1 = (directWriteFull env d pos buf).2.1 := by
  unfold directWriteData
  split
  split
  · next hw _ => rw [hw]
  · next hw _ =>
    split
    split <;> rw [hw]

/-- A byte of the file outside the spans of a write is the same after it,
whether the write succeeds or not. -/
theorem bucketDirectWrite_frame {env : Env} {d : BucketDirect} {buf : Bytes} {i : Nat}
    (h : ∀ s ∈ bucketDirectWriteSpans env d buf, i < s.pos ∨ s.pos + s.len ≤ i) :
    (bucketDirectWrite env d buf).2.1.area[i]? = d.area[i]? := by
  unfold bucketDirectWriteSpans at h
  unfold bucketDirectWrite
  by_cases hroom : d.headRoom buf.length
  · simp only [hroom, if_true] at h ⊢
    have hmeta := @directWriteFull_frame env d 0 (directMeta buf.length) (Nat.zero_le _) i
    obtain ⟨env', ret, k, hw⟩ := directWriteFull_taken env d 0 (directMeta buf.length)
    rw [hw] at h hmeta ⊢
    by_cases hneg : ret < 0
    · simp only [hneg, if_true, List.mem_singleton, forall_eq] at h ⊢
      exact hmeta h
    · simp only [hneg, if_false, List.forall_mem_cons] at h ⊢
      rw [directWriteData_area, directWriteFull_frame ?_ h.2.1]
      · exact hmeta h.1
      · simp [splice]
  · cases hc : d.compat with
    | false =>
      simp only [hroom, if_false, Bool.false_eq_true]
    | true =>
      simp only [hroom, hc, if_true, if_false, List.mem_singleton, forall_eq] at h ⊢
      rw [directWriteData_area]
      exact directWriteFull_frame (Nat.zero_le _) h

/-! ## When a write stays inside -/

/-- The payload fits the stride: with the metadata in front of it, or alone in
a backward compatible build. -/
def BucketDirect.WriteFits (d : BucketDirect) (len : Nat) : Prop :=
  d.readonly = true ∨ if d.headRoom len then directMetaSize ≤ d.maxSize else d.compat = true → len ≤ d.maxSize

/-- With room for the metadata the subtraction does not wrap. -/
theorem BucketDirect.headRoom_iff {d : BucketDirect} {len : Nat} (h : directMetaSize ≤ d.maxSize) :
    d.headRoom len ↔ len + directMetaSize ≤ d.maxSize := by
  have hmax := d.maxSize_lt
  simp only [BucketDirect.headRoom, directMetaSize] at h ⊢
  omega

theorem directWriteFull_clean {env : Env} (henv : env.Clean) {d : BucketDirect} (hro : d.readonly = false) (pos : Nat)
    (data : Bytes) : ∃ env', env'.Clean ∧
      directWriteFull env d pos data = (env', { d with area := splice pos data d.area }, cInt data.length,
          data.length) := by
  unfold directWriteFull
  split
  · next h0 =>
    subst h0
    exact ⟨env, henv, by simp [cInt_of_lt]⟩
  · rw [if_neg (by simp [hro]), writeFull_clean henv]
    exact ⟨env.pop, henv.pop, rfl⟩

theorem BucketDirect.writeSpans_inside {d : BucketDirect} {buf : Bytes} (h : d.WriteFits buf.length) (env : Env) :
    ∀ s ∈ bucketDirectWriteSpans env d buf, s.Inside d.maxSize := by
  unfold bucketDirectWriteSpans
  by_cases hroom : d.headRoom buf.length
  · obtain ⟨env', ret, k, hw⟩ := directWriteFull_taken env d 0 (directMeta buf.length)
    have hle := directWriteFull_le env d 0 (directMeta buf.length)
    have hle' := directWriteFull_le env' { d with area := splice 0 ((directMeta buf.length).take k) d.area }
      ((directMeta buf.length).take k).length buf
    rw [hw, directMeta_length] at hle
    have hinside : (⟨0, ((directMeta buf.length).take k).length⟩ : Span).Inside d.maxSize := by
      rw [Span.inside_iff]
      rcases h with hro | hfit
      · have := @directWriteFull_readonly env d 0 (directMeta buf.length) hro
        rw [hw] at this
        exact .inl this
      · rw [if_pos hroom, directMetaSize] at hfit
        simp only at hle ⊢
        omega
    simp only [hroom, if_true, hw]
    by_cases hneg : ret < 0
    · simp only [hneg, if_true, List.mem_singleton, forall_eq]
      exact hinside
    · simp only [hneg, if_false, List.forall_mem_cons, List.not_mem_nil, false_implies, implies_true, and_true]
      refine ⟨hinside, ?_⟩
      rw [Span.inside_iff]
      rcases h with hro | hfit
      · exact .inl (directWriteFull_readonly hro)
      · rw [if_pos hroom] at hfit
        rw [d.headRoom_iff hfit, directMetaSize] at hroom
        simp only at hle ⊢
        omega
  · cases hc : d.compat with
    | false => simp [hroom]
    | true =>
      simp only [hroom, if_true, if_false, List.mem_singleton, forall_eq]
      rw [Span.inside_iff]
      rcases h with hro | hfit
      · exact .inl (directWriteFull_readonly hro)
      · rw [if_neg hroom] at hfit
        have hle := directWriteFull_le env d 0 buf
        have := hfit hc
        simp only
        omega

theorem BucketDirect.writeFits_of_inside {d : BucketDirect} {buf : Bytes}
    (h : ∀ s ∈ bucketDirectWriteSpans Env.ok d buf, s.Inside d.maxSize) : d.WriteFits buf.length := by
  cases hro : d.readonly with
  | true => exact .inl hro
  | false =>
    refine .inr ?_
    unfold bucketDirectWriteSpans at h
    by_cases hroom : d.headRoom buf.length
    · obtain ⟨env', -, hw⟩ := directWriteFull_clean .ok hro 0 (directMeta buf.length)
      have hfirst : (⟨0, (directMeta buf.length).length⟩ : Span).Inside d.maxSize := by
        refine h _ ?_
        simp only [hroom, if_true, hw]
        split
        · exact List.mem_cons_self ..
        · exact List.mem_cons_self ..
      rw [if_pos hroom, directMetaSize]
      rw [Span.inside_iff, directMeta_length] at hfirst
      simpa using hfirst
    · rw [if_neg hroom]
      intro hc
      obtain ⟨env', -, hw⟩ := directWriteFull_clean .ok hro 0 buf
      simp only [hroom, hc, hw, if_true, if_false, List.mem_singleton, forall_eq, Span.inside_iff] at h
      omega

/-! ## When a read stays inside -/

/-- The file reaches as far as the metadata, and they begin with the magic. -/
def BucketDirect.HasMeta (d : BucketDirect) : Prop :=
  directMetaSize ≤ d.area.length ∧ leNat (d.area.take 4) = directMagic

/-- The length word of the metadata. -/
def BucketDirect.writtenLength (d : BucketDirect) : Nat := leNat (slice 4 4 d.area)

/-- The metadata lie in the stride or in the end of the file, and so do the
data, if their length is taken. -/
def BucketDirect.ReadFits (d : BucketDirect) : Prop :=
  min directMetaSize d.area.length ≤ d.maxSize ∧
    (d.HasMeta → d.writtenLength ≤ d.maxSize → min (directMetaSize + d.writtenLength) d.area.length ≤ d.maxSize)

theorem directReadFull_le (env : Env) (d : BucketDirect) (pos len : Nat) :
    (directReadFull env d pos len).2.2.length ≤ min len (d.area.length - pos) := by
  obtain ⟨env', ret, k, h, -, hk⟩ := @directReadFull_agree env d d rfl pos len
  rw [h]
  simp only [slice, List.length_take, List.length_drop]
  omega

theorem readFull_honest {env : Env} (henv : env.Honest) (avail : Bytes) :
    ∃ env' ret got, readFull env avail = (env', ret, got) ∧ env'.Honest ∧
      (ret = avail.length ∧ got = avail ∨ ret = -1) := by
  unfold readFull
  repeat' split
  · exact ⟨_, _, _, rfl, henv.pop, .inl ⟨rfl, rfl⟩⟩
  · next k err hnext herr => exact absurd (herr ▸ hnext) (henv.next k)
  · exact ⟨_, _, _, rfl, henv.pop, .inr rfl⟩
  · exact ⟨_, _, _, rfl, henv.pop, .inr rfl⟩
  · exact ⟨_, _, _, rfl, henv, .inr rfl⟩

/-- An honest device delivers everything that is asked for, or an error. -/
theorem directReadFull_honest {env : Env} (henv : env.Honest) (d : BucketDirect) (pos len : Nat) :
    ∃ env' ret got, directReadFull env d pos len = (env', ret, got) ∧ env'.Honest ∧
      (0 ≤ ret → ret = cInt (slice pos len d.area).length ∧ got = slice pos len d.area) := by
  unfold directReadFull
  split
  · next h0 =>
    subst h0
    exact ⟨env, 0, [], rfl, henv, fun _ => ⟨by simp [slice, cInt_of_lt], by simp [slice]⟩⟩
  · obtain ⟨env', ret, got, hr, henv', hall | hneg⟩ := readFull_honest henv (slice pos len d.area)
    · rw [hr, hall.1, hall.2]
      exact ⟨env', _, _, rfl, henv', fun _ => ⟨rfl, rfl⟩⟩
    · rw [hr]
      refine ⟨env', cInt ret, got, rfl, henv', fun h => ?_⟩
      rw [hneg, cInt_neg_one] at h
      exact absurd h (by decide)

theorem directReadFull_clean {env : Env} (henv : env.Clean) (d : BucketDirect) (pos len : Nat) :
    ∃ env', env'.Clean ∧ env'.stack = env.stack ∧
      directReadFull env d pos len = (env', cInt (slice pos len d.area).length, slice pos len d.area) := by
  unfold directReadFull
  split
  · next h0 =>
    subst h0
    exact ⟨env, henv, rfl, by simp [slice, cInt_of_lt]⟩
  · rw [readFull_clean henv]
    exact ⟨env.pop, henv.pop, rfl, rfl⟩

/-- Nothing of the header comes from the stack if the file has it all. -/
theorem directReadMeta_full {env : Env} {area : Bytes} (h : directMetaSize ≤ area.length) :
    directReadMeta env (area.take directMetaSize) = area.take directMetaSize := by
  simp [directReadMeta, directMetaSize] at h ⊢
  omega

theorem BucketDirect.hasMeta_iff {env : Env} {d : BucketDirect} (h : directMetaSize ≤ d.area.length) :
    leNat ((directReadMeta env (d.area.take directMetaSize)).take 4) = directMagic ↔ d.HasMeta := by
  rw [directReadMeta_full h, List.take_take, BucketDirect.HasMeta, and_iff_right h]
  rfl

theorem BucketDirect.writtenLength_eq {env : Env} {d : BucketDirect} (h : directMetaSize ≤ d.area.length) :
    leNat (slice 4 4 (directReadMeta env (d.area.take directMetaSize))) = d.writtenLength := by
  rw [directReadMeta_full h, slice_take (by decide), BucketDirect.writtenLength]

theorem BucketDirect.readSpans_inside {env : Env} {d : BucketDirect} (h : d.ReadFits) (henv : env.Honest) :
    ∀ s ∈ bucketDirectReadSpans env d, s.Inside d.maxSize := by
  obtain ⟨env', ret, got, hr, -, hgot⟩ := directReadFull_honest henv d 0 directMetaSize
  have hle := directReadFull_le env d 0 directMetaSize
  have hdata := directReadFull_le env' d got.length (leNat (slice 4 4 (directReadMeta env' got)))
  have hall := directReadFull_le env' d 0 d.maxSize
  rw [hr] at hle
  simp only [bucketDirectReadSpans, hr]
  have hfirst : (⟨0, got.length⟩ : Span).Inside d.maxSize := by
    rw [Span.inside_iff]
    have := h.1
    simp only at hle ⊢
    omega
  split
  · simpa using hfirst
  next hneg =>
  obtain ⟨-, rfl⟩ := hgot (by omega)
  rw [slice_zero_left] at *
  split
  · next hmagic =>
    split
    · simpa using hfirst
    next hbig =>
    simp only [List.forall_mem_cons, List.not_mem_nil, false_implies, implies_true, and_true]
    refine ⟨hfirst, ?_⟩
    rw [Span.inside_iff]
    simp only [List.length_take] at hdata ⊢
    by_cases h8 : directMetaSize ≤ d.area.length
    · rw [BucketDirect.hasMeta_iff h8] at hmagic
      rw [BucketDirect.writtenLength_eq h8] at hbig hdata ⊢
      have := h.2 hmagic (by omega)
      omega
    · omega
  · split
    · simp only [List.forall_mem_cons, List.not_mem_nil, false_implies, implies_true, and_true]
      refine ⟨hfirst, ?_⟩
      rw [Span.inside_iff]
      simp only
      omega
    · simpa using hfirst

theorem BucketDirect.readFits_of_inside {d : BucketDirect}
    (h : ∀ s ∈ bucketDirectReadSpans Env.ok d, s.Inside d.maxSize) : d.ReadFits := by
  obtain ⟨env', hclean, -, hr⟩ := directReadFull_clean .ok d 0 directMetaSize
  rw [slice_zero_left] at hr
  have hret : ¬ cInt (d.area.take directMetaSize).length < 0 := by
    have := List.length_take_le directMetaSize d.area
    simp only [directMetaSize] at this ⊢
    rw [cInt_of_lt (by omega) (by omega)]
    omega
  simp only [bucketDirectReadSpans, hr, hret, if_false] at h
  have hfirst : (⟨0, (d.area.take directMetaSize).length⟩ : Span).Inside d.maxSize := by
    refine h _ ?_
    repeat' split
    all_goals exact List.mem_cons_self ..
  rw [Span.inside_iff, List.length_take] at hfirst
  simp only at hfirst
  constructor
  · omega
  · intro hmeta hlen
    have h8 := hmeta.1
    obtain ⟨env'', -, -, hr'⟩ := directReadFull_clean hclean d (d.area.take directMetaSize).length d.writtenLength
    have hdata : (⟨(d.area.take directMetaSize).length, (slice (d.area.take directMetaSize).length d.writtenLength
        d.area).length⟩ : Span).Inside d.maxSize := by
      refine h _ ?_
      rw [if_pos ((BucketDirect.hasMeta_iff h8).2 hmeta), BucketDirect.writtenLength_eq h8, if_neg (by omega), hr']
      exact List.mem_cons_of_mem _ (List.mem_cons_self ..)
    rw [Span.inside_iff] at hdata
    simp only [slice, List.length_take, List.length_drop] at hdata
    omega

/-! ## What a write leaves for the next read -/

/-- The file begins with the magic, as far as it reaches. -/
def BucketDirect.MagicFirst (d : BucketDirect) : Prop := d.area.take 4 <+: leBytes 4 directMagic

instance (d : BucketDirect) : Decidable d.MagicFirst := inferInstanceAs (Decidable (_ <+: _))

/-- The bytes that a read of `len` bytes at `pos` returns. -/
def BucketDirect.padded (d : BucketDirect) (pos len : Nat) : Bytes :=
  slice pos len d.area ++ List.replicate (len - (slice pos len d.area).length) 0

/-- A payload without metadata is found by the read that follows: it is not
taken for metadata, or happens to repeat itself eight bytes further on. -/
def BucketDirect.Legible (d : BucketDirect) (buf : Bytes) : Prop :=
  if d.MagicFirst then
    directMetaSize ≤ d.area.length ∧ d.writtenLength ≤ d.maxSize ∧
      (slice directMetaSize d.writtenLength d.area).length < 2 ^ 31 ∧ buf <+: d.padded directMetaSize d.writtenLength
  else (d.area.take d.maxSize).length < 2 ^ 31

/-- The bucket with the payload over its first bytes. -/
def BucketDirect.withRaw (d : BucketDirect) (buf : Bytes) : BucketDirect := { d with area := splice 0 buf d.area }

theorem writeFull_honest {env : Env} (henv : env.Honest) (data : Bytes) :
    ∃ env' ret taken, writeFull env data = (env', ret, taken) ∧ env'.Honest ∧
      (ret = data.length ∧ taken = data ∨ ret = -1) := by
  unfold writeFull
  repeat' split
  · exact ⟨_, _, _, rfl, henv.pop, .inl ⟨rfl, rfl⟩⟩
  · exact ⟨_, _, _, rfl, henv.pop, .inl ⟨rfl, rfl⟩⟩
  · next k err hnext _ herr => exact absurd (herr ▸ hnext) (henv.next k)
  · exact ⟨_, _, _, rfl, henv.pop, .inr rfl⟩
  · exact ⟨_, _, _, rfl, henv.pop, .inr rfl⟩
  · exact ⟨_, _, _, rfl, henv, .inr rfl⟩

/-- An honest device that reports success has taken all the data. -/
theorem directWriteFull_honest {env : Env} (henv : env.Honest) (d : BucketDirect) (pos : Nat) (data : Bytes) :
    ∃ env' d' ret taken, directWriteFull env d pos data = (env', d', ret, taken) ∧ env'.Honest ∧
      (0 ≤ ret → d' = { d with area := splice pos data d.area } ∧ ret = cInt data.length ∧ taken = data.length ∧
        (data = [] ∨ d.readonly = false)) := by
  unfold directWriteFull
  split
  · next h0 =>
    subst h0
    exact ⟨env, d, 0, 0, rfl, henv, fun _ => ⟨by simp, by simp [cInt_of_lt], rfl, .inl rfl⟩⟩
  split
  · exact ⟨env, d, -1, 0, rfl, henv, fun h => absurd h (by decide)⟩
  · next hro =>
    obtain ⟨env', ret, taken, hw, henv', ⟨rfl, rfl⟩ | hneg⟩ := writeFull_honest henv data
    · rw [hw]
      exact ⟨env', _, _, _, rfl, henv', fun _ => ⟨rfl, rfl, rfl, .inr (by simpa using hro)⟩⟩
    · rw [hw]
      refine ⟨env', _, cInt ret, _, rfl, henv', fun h => ?_⟩
      rw [hneg, cInt_neg_one] at h
      exact absurd h (by decide)

theorem directWriteData_honest {env : Env} (henv : env.Honest) {d : BucketDirect} {pos : Nat} {buf : Bytes}
    (h : (directWriteData env d pos buf).2.2 = 0) :
    (directWriteData env d pos buf).2.1 = { d with area := splice pos buf d.area } ∧ 0 ≤ cInt buf.length ∧
      (buf = [] ∨ d.readonly = false) := by
  rw [directWriteData_area]
  obtain ⟨env', d', ret, taken, hw, -, hok⟩ := directWriteFull_honest henv d pos buf
  simp only [directWriteData, hw] at h ⊢
  by_cases hneg : ret < 0
  · simp only [hneg, if_true] at h
    omega
  · obtain ⟨h₁, h₂, -, h₃⟩ := hok (by omega)
    exact ⟨h₁, by omega, h₃⟩

theorem bucketDirectWrite_honest {env : Env} (henv : env.Honest) {d : BucketDirect} {buf : Bytes}
    (h : (bucketDirectWrite env d buf).2.2 = 0) :
    (bucketDirectWrite env d buf).2.1 = { d with area := splice 0 (d.image buf) d.area } ∧ 0 ≤ cInt buf.length ∧
      d.readonly = false ∧ (d.headRoom buf.length ∨ d.compat = true) := by
  unfold BucketDirect.image
  unfold bucketDirectWrite at h ⊢
  by_cases hroom : d.headRoom buf.length
  · simp only [hroom, if_true] at h ⊢
    obtain ⟨env', d', ret, taken, hw, henv', hok⟩ := directWriteFull_honest henv d 0 (directMeta buf.length)
    rw [hw] at h ⊢
    by_cases hneg : ret < 0
    · simp only [hneg, if_true] at h
      omega
    · simp only [hneg, if_false] at h ⊢
      obtain ⟨rfl, -, rfl, hro⟩ := hok (by omega)
      obtain ⟨hd, hint, -⟩ := directWriteData_honest henv' h
      refine ⟨?_, hint, hro.resolve_left (List.ne_nil_of_length_pos (by simp)), .inl trivial⟩
      rw [hd]
      simp only [splice_splice, directRecord]
  · cases hc : d.compat with
    | false =>
      simp only [hroom, hc, if_false, Bool.false_eq_true] at h
      exact absurd h (by decide)
    | true =>
      simp only [hroom, hc, if_true, if_false] at h ⊢
      obtain ⟨hd, hint, hro⟩ := directWriteData_honest henv h
      refine ⟨by rw [hd, hc], hint, hro.resolve_left ?_, .inr trivial⟩
      rintro rfl
      exact hroom (Nat.zero_le _)

/-- A payload without head room, on a device that does not fail. -/
theorem bucketDirectWrite_raw {d : BucketDirect} {buf : Bytes} (hro : d.readonly = false)
    (hroom : ¬ d.headRoom buf.length) (hc : d.compat = true) (hlen : buf.length < 2 ^ 31) :
    (bucketDirectWrite Env.ok d buf).2.2 = 0 ∧ (bucketDirectWrite Env.ok d buf).2.1 = d.withRaw buf := by
  obtain ⟨env', henv', hw⟩ := directWriteFull_clean .ok hro 0 buf
  have hint : ¬ cInt buf.length < 0 := by
    rw [cInt_of_lt (by omega) (by omega)]
    omega
  have hflush : directFlush env' = (env'.pop, 0) := by simp [directFlush, henv'.1, henv'.next]
  simp only [bucketDirectWrite, hroom, hc, if_true, if_false, directWriteData, hw, hint, hflush]
  exact ⟨rfl, by simp only [BucketDirect.withRaw, hc]; rfl⟩

/-! ## What the next read returns -/

theorem directReadData_honest {env : Env} (henv : env.Honest) {d : BucketDirect} {pos len : Nat}
    (h : (directReadData env d pos len).2.2.1 = 0) :
    0 ≤ cInt (slice pos len d.area).length ∧ (directReadData env d pos len).2.2.2 =
        some (d.padded pos len, (len : Int)) := by
  obtain ⟨env', ret, got, hr, -, hok⟩ := directReadFull_honest henv d pos len
  simp only [directReadData, hr] at h ⊢
  by_cases hneg : ret < 0
  · simp only [hneg, if_true] at h
    omega
  · obtain ⟨hret, rfl⟩ := hok (by omega)
    simp only [hneg, if_false]
    exact ⟨by omega, rfl⟩

theorem directReadData_clean {env : Env} (henv : env.Clean) {d : BucketDirect} {pos len : Nat} :
    (directReadData env d pos len).2.2.1 = 0 ↔ 0 ≤ cInt (slice pos len d.area).length := by
  obtain ⟨env', -, -, hr⟩ := directReadFull_clean henv d pos len
  simp only [directReadData, hr]
  split
  · next hneg => exact ⟨fun h => by simp only at h; omega, fun h => absurd hneg (by omega)⟩
  · next hneg => exact ⟨fun _ => by omega, fun _ => rfl⟩

theorem directReadMeta_length (env : Env) {got : Bytes} (h : got.length ≤ directMetaSize) :
    (directReadMeta env got).length = directMetaSize := by
  simp only [directReadMeta, directMetaSize, List.length_append, List.length_drop, List.length_take,
    List.length_replicate] at h ⊢
  omega

theorem leNat_magic_iff {bs : Bytes} (h : bs.length = 4) : leNat bs = directMagic ↔ bs = leBytes 4 directMagic := by
  constructor
  · intro he
    rw [← he, ← h, leBytes_leNat]
  · rintro rfl
    exact leNat_leBytes_of_lt (by decide)

/-- A header is taken for metadata only if the file begins like them. -/
theorem BucketDirect.magicFirst_of_header {env : Env} {d : BucketDirect}
    (h : leNat ((directReadMeta env (d.area.take directMetaSize)).take 4) = directMagic) : d.MagicFirst := by
  have hlen := directReadMeta_length env (List.length_take_le directMetaSize d.area)
  rw [leNat_magic_iff (by rw [List.length_take, hlen]; rfl)] at h
  rw [BucketDirect.MagicFirst, ← h, directReadMeta]
  have hfour : d.area.take 4 = (d.area.take directMetaSize).take 4 := by rw [List.take_take]; rfl
  rw [hfour]
  exact List.prefix_take_iff.2 ⟨(List.take_prefix _ _).trans (List.prefix_append _ _), List.length_take_le _ _⟩

theorem BucketDirect.magicFirst_iff {d : BucketDirect} (h : directMetaSize ≤ d.area.length) :
    d.MagicFirst ↔ d.HasMeta := by
  have hlen : (d.area.take 4).length = 4 := by
    simp only [directMetaSize] at h
    rw [List.length_take]
    omega
  rw [BucketDirect.HasMeta, and_iff_right h, leNat_magic_iff hlen, BucketDirect.MagicFirst]
  exact ⟨fun hp => hp.eq_of_length (by simpa using hlen), fun he => he ▸ List.prefix_rfl⟩

/-- A file that ends in the middle of the magic: what the stack holds may
complete it. -/
theorem BucketDirect.MagicFirst.header {env : Env} {d : BucketDirect} (hstack : env.stack = leBytes 4 directMagic)
    (h : d.MagicFirst) : leNat ((directReadMeta env (d.area.take directMetaSize)).take 4) = directMagic := by
  obtain ⟨t, ht⟩ := h
  have hlen := congrArg List.length ht
  rw [List.length_append, List.length_take, leBytes_length] at hlen
  have hheader : (directReadMeta env (d.area.take directMetaSize)).take 4 = leBytes 4 directMagic := by
    rw [directReadMeta, hstack, ← ht, directMetaSize]
    by_cases h4 : 4 ≤ d.area.length
    · have hnil : t = [] := List.eq_nil_of_length_eq_zero (by omega)
      rw [List.take_append_of_le_length (by rw [List.length_take]; omega), List.take_take, hnil, List.append_nil]
      rfl
    · rw [List.take_of_length_le (by omega : d.area.length ≤ 8), List.take_of_length_le (by omega : d.area.length ≤ 4)]
      have hdrop : ((d.area ++ t ++ List.replicate 8 0).take 8).drop d.area.length =
          t ++ List.replicate (8 - d.area.length - t.length) 0 := by
        rw [List.append_assoc, List.take_append, List.take_of_length_le (by omega), List.drop_left, List.take_append,
          List.take_of_length_le (by omega), List.take_replicate]
        congr 2
        omega
      rw [hdrop, ← List.append_assoc, List.take_append_of_le_length (by rw [List.length_append]; omega),
        List.take_of_length_le (by rw [List.length_append]; omega)]
  rw [hheader]
  exact leNat_leBytes_of_lt (by decide)

theorem directReadFull_header {env : Env} (henv : env.Honest) (d : BucketDirect) :
    ∃ env' ret got, directReadFull env d 0 directMetaSize = (env', ret, got) ∧ env'.Honest ∧
      (¬ ret < 0 → got = d.area.take directMetaSize) ∧
          (env.Clean → env'.Clean ∧ env'.stack = env.stack ∧ ¬ ret < 0) := by
  obtain ⟨env', ret, got, hr, henv', hgot⟩ := directReadFull_honest henv d 0 directMetaSize
  refine ⟨env', ret, got, hr, henv', fun h => ?_, fun hc => ?_⟩
  · rw [(hgot (by omega)).2, slice_zero_left]
  · obtain ⟨env'', hc', hstack, hr'⟩ := directReadFull_clean hc d 0 directMetaSize
    have hle := slice_length_le 0 directMetaSize d.area
    cases hr.symm.trans hr'
    simp only [directMetaSize] at hle ⊢
    rw [cInt_of_lt (by omega) (by omega)]
    exact ⟨hc', hstack, by omega⟩

theorem bucketDirectRead_meta {env : Env} (henv : env.Honest) {d : BucketDirect} (hmeta : d.HasMeta) :
    ((bucketDirectRead env d).2.2.1 = 0 →
      (bucketDirectRead env d).2.2.2 = some (d.padded directMetaSize d.writtenLength, (d.writtenLength : Int))) ∧
    (env.Clean → ((bucketDirectRead env d).2.2.1 = 0 ↔
      d.writtenLength ≤ d.maxSize ∧ 0 ≤ cInt (slice directMetaSize d.writtenLength d.area).length)) := by
  have h8 := hmeta.1
  have hpos : (d.area.take directMetaSize).length = directMetaSize := by
    rw [List.length_take]
    omega
  obtain ⟨env', ret, got, hr, henv', hgot, hclean⟩ := directReadFull_header henv d
  simp only [bucketDirectRead, hr]
  by_cases hneg : ret < 0
  · simp only [hneg, if_true]
    exact ⟨fun h => by omega, fun hc => absurd hneg (hclean hc).2.2⟩
  rw [hgot hneg]
  simp only [hneg, if_false, BucketDirect.hasMeta_iff h8, hmeta, if_true, BucketDirect.writtenLength_eq h8, hpos]
  by_cases hbig : d.maxSize < d.writtenLength
  · simp only [hbig, if_true]
    exact ⟨fun h => absurd h (by decide), fun _ => ⟨fun h => absurd h (by decide), fun h => absurd hbig (by omega)⟩⟩
  · simp only [hbig, if_false]
    refine ⟨fun h => (directReadData_honest henv' h).2, fun hc => ?_⟩
    rw [directReadData_clean (hclean hc).1, and_iff_right (by omega)]

/-- A read of a file that does not begin like metadata, in a backward
compatible build. -/
theorem bucketDirectRead_foreign {env : Env} (henv : env.Honest) {d : BucketDirect} (hmagic : ¬ d.MagicFirst)
    (hcompat : d.compat = true) :
    ((bucketDirectRead env d).2.2.1 = 0 →
      (bucketDirectRead env d).2.2.2 = some (d.padded 0 d.maxSize, (d.maxSize : Int))) ∧
    (env.Clean → ((bucketDirectRead env d).2.2.1 = 0 ↔ 0 ≤ cInt (d.area.take d.maxSize).length)) := by
  obtain ⟨env', ret, got, hr, henv', hgot, hclean⟩ := directReadFull_header henv d
  simp only [bucketDirectRead, hr]
  by_cases hneg : ret < 0
  · simp only [hneg, if_true]
    exact ⟨fun h => by omega, fun hc => absurd hneg (hclean hc).2.2⟩
  rw [hgot hneg]
  have hheader : ¬ leNat ((directReadMeta env' (d.area.take directMetaSize)).take 4) = directMagic :=
    fun h => hmagic (BucketDirect.magicFirst_of_header h)
  simp only [hneg, if_false, hheader, BucketDirect.noteMagic, hcompat, if_true]
  refine ⟨fun h => (directReadData_honest henv' h).2, fun hc => ?_⟩
  rw [directReadData_clean (hclean hc).1, slice_zero_left]

/-- A read of a file that ends within metadata that the stack completes
delivers zeros, if anything. -/
theorem bucketDirectRead_short {env : Env} (henv : env.Clean) (hstack : env.stack = leBytes 4 directMagic)
    {d : BucketDirect} (hmagic : d.MagicFirst) (hshort : d.area.length < directMetaSize)
    (h : (bucketDirectRead env d).2.2.1 = 0) :
    ∃ n, (bucketDirectRead env d).2.2.2 = some (List.replicate n 0, (n : Int)) := by
  obtain ⟨env', ret, got, hr, henv', hgot, hclean⟩ := directReadFull_header henv.honest d
  obtain ⟨-, hstack', hneg⟩ := hclean henv
  have hheader := hmagic.header (hstack'.trans hstack)
  have hwhole : d.area.take directMetaSize = d.area := List.take_of_length_le (by omega)
  rw [hwhole] at hheader hgot
  simp only [bucketDirectRead, hr, hneg, if_false, hgot hneg, hheader, if_true] at h ⊢
  by_cases hbig : d.maxSize < leNat (slice 4 4 (directReadMeta env' d.area))
  · rw [if_pos hbig] at h
    simp only at h
    exact absurd h (by decide)
  · rw [if_neg hbig] at h ⊢
    rw [(directReadData_honest henv' h).2, BucketDirect.padded, slice_end]
    exact ⟨_, rfl⟩

/-! ## The bucket and its neighbour -/

theorem BucketDirect.MagicFirst.not_zeros {d : BucketDirect} {buf : Bytes} (h : d.MagicFirst) (hne : buf ≠ [])
    (hbuf : buf <+: d.area) (n : Nat) : ¬ buf <+: List.replicate n 0 := by
  intro hzero
  obtain ⟨b, bs, rfl⟩ := List.exists_cons_of_ne_nil hne
  have hb : b = 0 := List.eq_of_mem_replicate (hzero.subset (List.mem_cons_self ..))
  obtain ⟨rest, hrest⟩ := hbuf
  obtain ⟨t, ht⟩ := h
  rw [← hrest, hb] at ht
  simp [directMagic, leBytes] at ht

/-- Whatever a successful write has left, the next read does not fail unless
the device does, and if it succeeds it returns the payload in front. -/
def BucketDirect.ReadsBack (d : BucketDirect) (buf : Bytes) : Prop :=
  ∀ env env', env.Honest → env'.Honest → (bucketDirectWrite env d buf).2.2 = 0 →
    (env'.Clean → (bucketDirectRead env' (bucketDirectWrite env d buf).2.1).2.2.1 = 0) ∧
    ((bucketDirectRead env' (bucketDirectWrite env d buf).2.1).2.2.1 = 0 →
      ∃ out, (bucketDirectRead env' (bucketDirectWrite env d buf).2.1).2.2.2 = some out ∧ buf <+: out.1)

/-- A payload that is legible is read, whatever becomes of the requests. -/
theorem BucketDirect.Legible.read {d : BucketDirect} {buf : Bytes} (h : d.Legible buf)
    (hraw : ¬ d.MagicFirst → d.compat = true ∧ buf <+: d.area ∧ buf.length ≤ d.maxSize) {env : Env}
    (henv : env.Honest) :
    (env.Clean → (bucketDirectRead env d).2.2.1 = 0) ∧
      ((bucketDirectRead env d).2.2.1 = 0 → ∃ out, (bucketDirectRead env d).2.2.2 = some out ∧ buf <+: out.1) := by
  unfold BucketDirect.Legible at h
  split at h
  · next hmagic =>
    obtain ⟨h8, hlen, hint, hbuf⟩ := h
    obtain ⟨hout, hret⟩ := bucketDirectRead_meta henv ((BucketDirect.magicFirst_iff h8).1 hmagic)
    refine ⟨fun hc => (hret hc).2 ⟨hlen, ?_⟩, fun h0 => ⟨_, hout h0, hbuf⟩⟩
    rw [cInt_of_lt (by omega) (by omega)]
    omega
  · next hmagic =>
    obtain ⟨hcompat, hbuf, hlen⟩ := hraw hmagic
    obtain ⟨hout, hret⟩ := bucketDirectRead_foreign henv hmagic hcompat
    refine ⟨fun hc => (hret hc).2 ?_, fun h0 => ⟨_, hout h0, ?_⟩⟩
    · rw [cInt_of_lt (by omega) (by omega)]
      omega
    · rw [BucketDirect.padded, slice_zero_left]
      exact (List.prefix_take_iff.2 ⟨hbuf, hlen⟩).trans (List.prefix_append _ _)

/-- What has to be so for a read to return the payload. -/
theorem BucketDirect.Legible.of_read {d : BucketDirect} {buf : Bytes} (hne : buf ≠ []) (hbuf : buf <+: d.area)
    (hcompat : d.compat = true)
    (h : ∀ env : Env, env.Clean → (bucketDirectRead env d).2.2.1 = 0 ∧
      ∃ out, (bucketDirectRead env d).2.2.2 = some out ∧ buf <+: out.1) : d.Legible buf := by
  have hint : ∀ {n : Nat}, n ≤ d.maxSize → 0 ≤ cInt n → n < 2 ^ 31 := fun hle h0 =>
    cInt_nonneg (lt_of_le_of_lt hle d.maxSize_lt) h0
  unfold BucketDirect.Legible
  split
  · next hmagic =>
    have hclean : ({ stack := leBytes 4 directMagic } : Env).Clean := ⟨rfl, rfl⟩
    obtain ⟨h0, out, hout, hp⟩ := h _ hclean
    by_cases h8 : directMetaSize ≤ d.area.length
    · obtain ⟨hout', hret⟩ := bucketDirectRead_meta hclean.honest ((BucketDirect.magicFirst_iff h8).1 hmagic)
      obtain ⟨hlen, hpos⟩ := (hret hclean).1 h0
      cases hout.symm.trans (hout' h0)
      exact ⟨h8, hlen, hint ((slice_length_le _ _ _).trans hlen) hpos, hp⟩
    · obtain ⟨n, hout'⟩ := bucketDirectRead_short hclean rfl hmagic (by omega) h0
      cases hout.symm.trans hout'
      exact absurd hp (hmagic.not_zeros hne hbuf n)
  · next hmagic =>
    obtain ⟨-, hret⟩ := bucketDirectRead_foreign Env.Clean.ok.honest hmagic hcompat
    exact hint (List.length_take_le _ _) ((hret .ok).1 (h _ .ok).1)

theorem BucketDirect.legible_record {d : BucketDirect} {buf rest : Bytes} (harea : d.area = directRecord buf ++ rest)
    (hlen : buf.length ≤ d.maxSize) (hint : buf.length < 2 ^ 31) : d.MagicFirst ∧ d.Legible buf := by
  obtain ⟨hfour, hword, hdata, h8⟩ := directRecord_parts harea hint
  have hmagic : d.MagicFirst := ⟨[], by rw [List.append_nil, hfour]⟩
  rw [← BucketDirect.writtenLength] at hword
  refine ⟨hmagic, ?_⟩
  rw [BucketDirect.Legible, if_pos hmagic, BucketDirect.padded, hword, hdata]
  exact ⟨h8, hlen, hint, List.prefix_append _ _⟩

/-- A payload that goes without metadata is legible in its place. -/
def BucketDirect.BackFits (d : BucketDirect) (buf : Bytes) : Prop :=
  d.readonly = false → ¬ d.headRoom buf.length → d.compat = true → buf.length < 2 ^ 31 → (d.withRaw buf).Legible buf

theorem BucketDirect.readsBack_iff {d : BucketDirect} {buf : Bytes} (hfits : d.WriteFits buf.length) :
    d.ReadsBack buf ↔ d.BackFits buf := by
  have hfront : ∀ bs : Bytes, bs <+: splice 0 bs d.area := fun bs => ⟨d.area.drop (0 + bs.length), by simp [splice]⟩
  constructor
  · intro h hro hroom hcompat hlen
    obtain ⟨hret, hd⟩ := bucketDirectWrite_raw hro hroom hcompat hlen
    have hne : buf ≠ [] := by
      rintro rfl
      exact hroom (Nat.zero_le _)
    refine BucketDirect.Legible.of_read hne (hfront buf) hcompat fun env henv => ?_
    obtain ⟨h0, hout⟩ := h Env.ok env Env.Clean.ok.honest henv.honest hret
    rw [hd] at h0 hout
    exact ⟨h0 henv, hout (h0 henv)⟩
  · intro h env env' henv henv' hret
    obtain ⟨hd, hint, hro, hkind⟩ := bucketDirectWrite_honest henv hret
    have hfits := hfits.resolve_left (by simp [hro])
    have hmax := d.maxSize_lt
    rw [hd]
    by_cases hroom : d.headRoom buf.length
    · rw [if_pos hroom] at hfits
      rw [BucketDirect.headRoom_iff hfits] at hroom
      obtain ⟨hmagic, hleg⟩ := @BucketDirect.legible_record { d with area := splice 0 (d.image buf) d.area } buf
        (d.area.drop (directRecord buf).length) (by simp [BucketDirect.image, BucketDirect.headRoom_iff hfits, hroom,
            splice])
        (by simp only; omega) (cInt_nonneg (by omega) hint)
      exact hleg.read (fun hno => absurd hmagic hno) henv'
    · rw [if_neg hroom] at hfits
      have hcompat := hkind.resolve_left hroom
      have hlen := hfits hcompat
      have hleg := h hro hroom hcompat (cInt_nonneg (by omega) hint)
      have hraw : { d with area := splice 0 (d.image buf) d.area } = d.withRaw buf := by
        rw [BucketDirect.image, if_neg hroom]
        rfl
      rw [hraw]
      exact hleg.read (fun _ => ⟨hcompat, hfront buf, hlen⟩) henv'

/-- Write and read keep to the stride, and what is written can be read. -/
structure BucketDirect.StaysInside (d : BucketDirect) (buf : Bytes) : Prop where
  write : ∀ env, ∀ s ∈ bucketDirectWriteSpans env d buf, s.Inside d.maxSize
  read : ∀ env : Env, env.Honest → ∀ s ∈ bucketDirectReadSpans env d, s.Inside d.maxSize
  readBack : d.ReadsBack buf

theorem BucketDirect.StaysInside.neighbour {d : BucketDirect} {buf : Bytes} (h : d.StaysInside buf) (env : Env) :
    (bucketDirectWrite env d buf).2.1.area.drop d.maxSize = d.area.drop d.maxSize := by
  apply List.ext_getElem?
  intro i
  rw [List.getElem?_drop, List.getElem?_drop]
  refine bucketDirectWrite_frame fun s hs => ?_
  have := h.write env s hs (d.maxSize + i)
  omega

/-- A read returns the same whatever the next bucket holds. -/
theorem BucketDirect.StaysInside.isolated {d : BucketDirect} {buf area : Bytes} (h : d.StaysInside buf) {env : Env}
    (henv : env.Honest) (hlen : area.length = d.area.length) (hsame : area.take d.maxSize = d.area.take d.maxSize) :
    (bucketDirectRead env { d with area }).2.2 = (bucketDirectRead env d).2.2 := by
  obtain ⟨env', d', ret, out, hr, hr'⟩ := @bucketDirectRead_footprint env d area hlen fun s hs => by
    apply slice_ext
    intro i hi
    have hin := h.read env henv s hs (s.pos + i) (by omega) (by omega)
    have hget := congrArg (·[s.pos + i]?) hsame
    simpa only [List.getElem?_take, if_pos hin] using hget
  rw [hr, hr']

/-- **A direct bucket stays inside its stride** exactly if the stride has room
for the metadata (or, in a backward compatible build, at least for a payload
that goes without them), if stored metadata that are taken count their own
eight bytes, and if a payload without metadata is not taken for some. -/
theorem direct_stays_iff (d : BucketDirect) (buf : Bytes) :
    d.StaysInside buf ↔ d.WriteFits buf.length ∧ d.ReadFits ∧ d.BackFits buf := by
  constructor
  · rintro ⟨hwrite, hread, hback⟩
    have hfits := BucketDirect.writeFits_of_inside (hwrite Env.ok)
    exact ⟨hfits, BucketDirect.readFits_of_inside (hread Env.ok Env.Clean.ok.honest),
      (BucketDirect.readsBack_iff hfits).1 hback⟩
  · rintro ⟨hwrite, hread, hback⟩
    exact ⟨BucketDirect.writeSpans_inside hwrite, fun _ => BucketDirect.readSpans_inside hread,
      (BucketDirect.readsBack_iff hwrite).2 hback⟩

/-- Two buckets with a stride of 16 bytes. The first has a length word of 16,
which its read takes: it returns half of its neighbour's metadata for data. -/
theorem direct_reads_neighbour :
    (bucketDirectRead Env.ok ⟨16, false, false, false, directMeta 16 ++ [1, 2, 3, 4, 5, 6, 7, 8] ++ directRecord [9],
        by decide⟩).2.2 =
        (0, some ([1, 2, 3, 4, 5, 6, 7, 8] ++ directMeta 1, 16)) ∧
      ¬ BucketDirect.StaysInside
        ⟨16, false, false, false, directMeta 16 ++ [1, 2, 3, 4, 5, 6, 7, 8] ++ directRecord [9], by decide⟩ [9] := by
  refine ⟨by decide +kernel, fun h => ?_⟩
  have hspan := h.read Env.ok Env.Clean.ok.honest ⟨8, 16⟩ (by decide +kernel)
  exact absurd (hspan 23 (by decide) (by decide)) (by decide)

end DtUtils
