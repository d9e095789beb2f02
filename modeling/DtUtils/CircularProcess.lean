/-
One process that has a circular bucket open on a device without faults. The
length of the last record is looked up when the bucket is opened and not
touched by a write, so a read that follows a write finds the payload exactly
if its record is as long as the one on the block at the start, or fills the
whole block and is read for the first time (`circular_reread_iff`).
-/
import DtUtils.CircularRuns

namespace DtUtils
open Lib

/-- What a process did with its bucket, newest first, and what it got. -/
abbrev CircularLog := List (CircularOp × Int)

/-- The payload of the last write that succeeded. -/
def CircularLog.written : CircularLog → Option Bytes
  | [] => none
  | (.write p, ret) :: t => if ret = 0 then some p else written t
  | _ :: t => written t

/-- There was a read since that write. -/
def CircularLog.readSince : CircularLog → Bool
  | [] => false
  | (.write _, ret) :: t => if ret = 0 then false else readSince t
  | (.read, _) :: _ => true
  | (.create, _) :: t => readSince t

/-- A process that opens the bucket on `block`, and then reads and writes. -/
def processSystem (g : Geometry) (block : Bytes) : System Session (CircularOp × Int) where
  init s := s = ((⟨block, none, []⟩ : Session).exec g [] .create).1
  step s l s' := l.1 ≠ .create ∧ s.exec g [] l.1 = (s', l.2)

/-- The next read delivers `p`, followed by zeros. -/
def BucketCircular.ReadsBack (c : BucketCircular) (p : Bytes) : Prop :=
  ∀ env : Env, env.Clean → ∃ env' c' buf len k, bucketCircularRead env c = (env', c', 0, buf, len) ∧
    buf.take len.toNat = p ++ List.replicate k 0

theorem readsBack_iff {c : BucketCircular} (hc : Ready c) {p : Bytes} :
    c.ReadsBack p ↔ ∃ k, c.readable = some (p ++ List.replicate k 0) := by
  constructor
  · intro h
    obtain ⟨env', c', buf, len, k, hr, hp⟩ := h .ok .ok
    obtain ⟨_, _, ret, _, _, -, hr', hres⟩ := bucketCircularRead_clean Env.Clean.ok hc
    rw [hr] at hr'
    cases hr'
    cases hread : c.readable with
    | none =>
      rw [hread] at hres
      exact absurd hres.1 (by decide)
    | some q =>
      rw [hread] at hres
      obtain ⟨-, hq, hlen⟩ := hres
      refine ⟨k, congrArg some ?_⟩
      rw [← hp, hlen, Int.toNat_natCast, hq]
  · rintro ⟨k, hk⟩ env henv
    obtain ⟨env', c', ret, buf, len, -, hr, hres⟩ := bucketCircularRead_clean henv hc
    rw [hk] at hres
    obtain ⟨rfl, hbuf, rfl⟩ := hres
    exact ⟨env', c', buf, _, k, hr, by rw [Int.toNat_natCast, hbuf]⟩

/-- The length of the last record as it is found when the bucket is opened. -/
def lengthFound (g : Geometry) (block : Bytes) : Nat :=
  (BucketCircular.scanned ⟨g, 0, 0, false, block⟩ block).lastWrittenLength

/-! ## Where the last record lies -/

/-- The block ends in the record of `p`, behind `front`. -/
structure RecordAt (g : Geometry) (found : Nat) (p block : Bytes) (front : Bytes) : Prop where
  block : ∃ free, block = front ++ circularRecord p (roundup (p.length + 8) g.writesize) ++ free
  le : front.length + roundup (p.length + 8) g.writesize ≤ g.erasesize
  /-- A record that would reach the end of the block goes to its front. -/
  wrapped : front.length + roundup (p.length + 8) g.writesize = g.erasesize → front = []
  /-- In front of it there is another one. -/
  marked : front ≠ [] → found ≠ 0 → leNat (slice (front.length - 8) 4 front) = circularMagic

/-- The bucket while the process has it open. -/
structure Positioned (g : Geometry) (found : Nat) (log : CircularLog) (c : BucketCircular) : Prop where
  ready : Ready c
  geo : c.geo = g
  length : c.lastWrittenLength = found
  marked : c.writeArea ≠ 0 → found ≠ 0 → leNat (slice (c.writeArea - 8) 4 c.block) = circularMagic
  last : ∀ p, log.written = some p → ∃ front, RecordAt g found p c.block front ∧
    (c.writeArea = front.length + roundup (p.length + 8) g.writesize ∧ (found = 0 → log.readSince = false) ∨
      c.writeArea = 0 ∧ log.readSince = true ∧ found ≠ roundup (p.length + 8) g.writesize)

theorem circularMagic_ne_zero : circularMagic ≠ 0 := by decide

theorem leNat_zeros {a : Bytes} (h : ∀ b ∈ a, b = 0) : leNat a = 0 := by
  induction a with
  | nil => rfl
  | cons b a ih => rw [leNat, ih fun b hb => h b (by simp [hb]), h b (by simp)]; rfl

/-- A string that can be moved behind `p` as zeros is zero. -/
theorem zeros_of_append {x p y : Bytes} {k : Nat} (h : x ++ p ++ y = p ++ List.replicate k 0) :
    (∀ b ∈ x, b = 0) ∧ ∀ b ∈ y, b = 0 := by
  have hcount := congrArg (List.countP (· ≠ 0)) h
  have hk : List.countP (· ≠ (0 : UInt8)) (List.replicate k 0) = 0 := by simp [List.countP_replicate]
  simp only [List.countP_append, hk] at hcount
  have hx : List.countP (· ≠ 0) x = 0 := by omega
  have hy : List.countP (· ≠ 0) y = 0 := by omega
  rw [List.countP_eq_zero] at hx hy
  exact ⟨fun b hb => by simpa using hx b hb, fun b hb => by simpa using hy b hb⟩

theorem circularMeta_not_zeros (n : Nat) : ¬ ∀ b ∈ circularMeta n, b = 0 := by
  intro h
  have h0 := leNat_zeros (a := leBytes 4 circularMagic) fun b hb => h b (by simp [circularMeta, hb])
  rw [leNat_leBytes_of_lt (by decide)] at h0
  exact circularMagic_ne_zero h0

/-- With the position behind the record, what a read is to deliver. -/
theorem RecordAt.readable_iff {g : Geometry} {p front : Bytes} {c : BucketCircular} (hc : Ready c) (hg : c.geo = g)
    (h : RecordAt g c.lastWrittenLength p c.block front)
    (hpos : c.writeArea = front.length + roundup (p.length + 8) g.writesize) :
    (∃ k, c.readable = some (p ++ List.replicate k 0)) ↔
      c.lastWrittenLength = roundup (p.length + 8) g.writesize ∨
        c.lastWrittenLength = 0 ∧ roundup (p.length + 8) g.writesize = g.erasesize := by
  obtain ⟨⟨free, hblock⟩, hle, hwrap, hmarked⟩ := h
  have hge := recordLength_ge g p
  have hlt := roundup_lt (x := p.length + 8) g.writesize_pos
  have hdn : g.writesize ∣ roundup (p.length + 8) g.writesize := dvd_roundup _ _
  have hdvd := hc.dvd
  have hlen := hc.length
  have h8 := g.le_writesize
  rw [hg] at hlen hdvd
  rw [hpos] at hdvd
  generalize roundup (p.length + 8) g.writesize = n at *
  have hrec : (circularRecord p n).length = n := circularRecord_length hge
  have hsplit : circularRecord p n = p ++ (List.replicate (n - 8 - p.length) 0 ++ circularMeta n) := by
    rw [circularRecord, List.append_assoc]
    rfl
  have h0 : c.writeArea ≠ 0 := by omega
  have hbl := congrArg List.length hblock
  simp only [List.length_append, hrec, hlen] at hbl
  rw [BucketCircular.readable, if_neg h0, hg]
  by_cases hL : c.lastWrittenLength = 0
  · rw [if_pos hL]
    simp only [hL, true_and, Option.some.injEq]
    by_cases hfull : front.length + n = g.erasesize
    · -- The record is the whole block.
      obtain rfl := hwrap hfull
      simp only [List.length_nil, Nat.zero_add] at hfull hpos hbl
      have hfree : free = [] := List.eq_nil_of_length_eq_zero (by omega)
      refine iff_of_true ⟨n - 8 - p.length, ?_⟩ (.inr hfull)
      rw [hblock, hfree, List.append_nil, List.nil_append, hsplit, ← List.append_assoc]
      exact List.take_left' (by simp only [List.length_append, List.length_replicate]; omega)
    · -- A read from the beginning includes the metadata.
      have hroom : g.writesize ≤ g.erasesize - (front.length + n) :=
        Nat.le_of_dvd (by omega) (Nat.dvd_sub g.dvd hdvd)
      refine iff_of_false ?_ (by omega)
      rintro ⟨k, hk⟩
      rw [hpos, Nat.min_eq_left (by omega), hblock, List.take_left' (by simp [hrec]), hsplit, ← List.append_assoc] at hk
      exact circularMeta_not_zeros n fun b hb => (zeros_of_append hk).2 b (by simp [hb])
  rw [if_neg hL]
  by_cases hv : c.writeArea < c.lastWrittenLength ∨ c.lastWrittenLength % g.writesize ≠ 0
  · rw [if_pos hv]
    refine iff_of_false (by simp) ?_
    rintro (h | h)
    · rw [h] at hv
      have := Nat.mod_eq_zero_of_dvd hdn
      omega
    · exact hL h.1
  rw [if_neg hv]
  simp only [not_or, not_lt, ne_eq, not_not] at hv
  obtain ⟨hin, hmod⟩ := hv
  have hdL : g.writesize ∣ c.lastWrittenLength := Nat.dvd_of_mod_eq_zero hmod
  have hL8 : g.writesize ≤ c.lastWrittenLength := Nat.le_of_dvd (by omega) hdL
  simp only [hL, false_and, or_false, Option.some.injEq]
  rcases Nat.lt_trichotomy c.lastWrittenLength n with hcmp | hcmp | hcmp
  · -- Too short for the payload.
    refine iff_of_false ?_ (by omega)
    rintro ⟨k, hk⟩
    have hgap : g.writesize ≤ n - c.lastWrittenLength := Nat.le_of_dvd (by omega) (Nat.dvd_sub hdn hdL)
    have := congrArg List.length hk
    have hs := slice_length_le (c.writeArea - c.lastWrittenLength) (c.lastWrittenLength - 8) c.block
    simp only [List.length_append, List.length_replicate] at this
    omega
  · refine iff_of_true ⟨n - 8 - p.length, ?_⟩ hcmp
    rw [hcmp, hpos, Nat.add_sub_cancel, hblock, slice_append_left (by simp [hrec]), slice_append_right (le_refl _),
      Nat.sub_self, slice_zero_left, hsplit, ← List.append_assoc]
    exact List.take_left' (by simp; omega)
  · -- The end of what lies in front comes with it, and ends in a magic.
    refine iff_of_false ?_ (by omega)
    rintro ⟨k, hk⟩
    have hgap : g.writesize ≤ c.lastWrittenLength - n := Nat.le_of_dvd (by omega) (Nat.dvd_sub hdL hdn)
    have hs : slice (c.writeArea - c.lastWrittenLength) (c.lastWrittenLength - 8) c.block =
        front.drop (front.length + n - c.lastWrittenLength) ++ p ++ List.replicate (n - 8 - p.length) 0 := by
      rw [hblock, hpos, slice, hsplit, List.append_assoc, List.drop_append_of_le_length (by omega),
        ← List.append_assoc p, List.append_assoc _ _ free, ← List.append_assoc _ (p ++ _), ← List.append_assoc _ p]
      exact List.take_left' (by simp; omega)
    rw [hs] at hk
    have hzero := (zeros_of_append hk).1
    have hmag := hmarked (by rintro rfl; simp at hpos; omega) hL
    rw [leNat_zeros] at hmag
    · exact circularMagic_ne_zero hmag.symm
    intro b hb
    refine hzero b ?_
    have hsub : slice (front.length - 8) 4 front =
        slice (c.lastWrittenLength - n - 8) 4 (front.drop (front.length + n - c.lastWrittenLength)) := by
      simp only [slice, List.drop_drop]
      congr 2
      omega
    rw [hsub] at hb
    exact List.mem_of_mem_drop (List.mem_of_mem_take hb)

/-! ## Through a run -/

/-- A read keeps the position exactly if it finds a usable length. -/
theorem bucketCircularRead_position (env : Env) (c : BucketCircular) :
    (bucketCircularRead env c).2.1 = c ∧ (c.writeArea = 0 ∨ c.lastWrittenLength ≠ 0) ∨
    (bucketCircularRead env c).2.1 = { c with writeArea := 0 } ∧
      (c.lastWrittenLength = 0 ∨ c.writeArea < c.lastWrittenLength ∨ c.lastWrittenLength % c.geo.writesize ≠ 0) := by
  unfold bucketCircularRead
  by_cases h0 : c.writeArea = 0
  · rw [if_pos h0]
    exact .inl ⟨rfl, .inl h0⟩
  rw [if_neg h0]
  by_cases hL : c.lastWrittenLength = 0
  · rw [if_pos hL]
    exact .inr ⟨bucketCircularFetched_bucket _ _ _, .inl hL⟩
  rw [if_neg hL]
  by_cases hv : c.writeArea < c.lastWrittenLength ∨ c.lastWrittenLength % c.geo.writesize ≠ 0
  · rw [if_pos hv]
    exact .inr ⟨rfl, .inr hv⟩
  · rw [if_neg hv]
    exact .inl ⟨bucketCircularFetched_bucket _ _ _, .inr hL⟩

/-- A payload that does not fit is refused, or stops the process. -/
theorem bucketCircularWrite_refused {env : Env} {c : BucketCircular} {p : Bytes} (hc : Ready c)
    (hfit : c.geo.erasesize < roundup (p.length + 8) c.geo.writesize) :
    ∃ env' ret, bucketCircularWrite env c p = (env', c, ret) ∧ ret ≠ 0 := by
  have hlt := roundup_lt (x := p.length + 8) c.geo.writesize_pos
  have hws := c.geo.writesize_le
  have hint := hc.int
  have hn : circularWrittenLength c.geo p.length = roundup (p.length + 8) c.geo.writesize % 2 ^ 32 := rfl
  by_cases hbig : c.geo.erasesize < circularWrittenLength c.geo p.length
  · refine ⟨env, -E2BIG, ?_, by decide⟩
    simp only [bucketCircularWrite]
    rw [if_pos hbig]
  · refine ⟨env.crash, -EFAULT, ?_, by decide⟩
    simp only [bucketCircularWrite, circularMetaSize]
    rw [if_neg hbig, if_pos (by omega)]

section
variable {g : Geometry} {block : Bytes} {log : CircularLog} {c : BucketCircular}

theorem Positioned.create (hb : block.length = g.erasesize) (hint : g.erasesize < 2 ^ 31) :
    Positioned g (lengthFound g block) [] (BucketCircular.scanned ⟨g, 0, 0, false, block⟩ block) where
  ready := Ready.scanned (c := ⟨g, 0, 0, false, block⟩) hint hb
  geo := rfl
  length := rfl
  marked h0 hfound := by
    simp only [lengthFound, BucketCircular.scanned, lengthWord] at h0 hfound ⊢
    by_contra hne
    exact hfound (by rw [if_neg hne]; split <;> rfl)
  last p hp := by cases hp

theorem Positioned.read {found : Nat} (h : Positioned g found log c) (env : Env) (ret : Int) :
    Positioned g found ((.read, ret) :: log) (bucketCircularRead env c).2.1 := by
  have hlen := h.length
  have hgeo := h.geo
  rcases bucketCircularRead_position env c with ⟨hr, hkeep⟩ | ⟨hr, hreset⟩ <;> rw [hr]
  · refine ⟨h.ready, hgeo, hlen, h.marked, fun p hp => ?_⟩
    obtain ⟨front, hrec, hpos⟩ := h.last p hp
    have hge := recordLength_ge g p
    refine ⟨front, hrec, ?_⟩
    rcases hpos with ⟨hw, -⟩ | ⟨hw, -, hne⟩
    · exact .inl ⟨hw, fun h0 => by omega⟩
    · exact .inr ⟨hw, rfl, hne⟩
  · refine ⟨h.ready.reset, hgeo, hlen, fun h0 => absurd rfl h0, fun p hp => ?_⟩
    obtain ⟨front, hrec, hpos⟩ := h.last p hp
    have hge := recordLength_ge g p
    have hmod := Nat.mod_eq_zero_of_dvd (dvd_roundup (p.length + 8) g.writesize)
    refine ⟨front, hrec, .inr ⟨rfl, rfl, ?_⟩⟩
    rcases hpos with ⟨hw, -⟩ | ⟨-, -, hne⟩
    · rw [hlen, hgeo] at hreset
      rintro rfl
      omega
    · exact hne

/-- A write that succeeds, to a place with room. -/
theorem Positioned.append {found : Nat} (h : Positioned g found log c) {p : Bytes} {b : BucketCircular}
    {t t' : List Event}
    (hroom : Room c (roundup (p.length + 8) g.writesize) t b t') :
    Positioned g found ((.write p, 0) :: log)
      (b.append (circularRecord p (roundup (p.length + 8) g.writesize)) (roundup (p.length + 8) g.writesize)) := by
  have hgeo := hroom.same.1
  have hb := hroom.hasRoom h.ready
  have hbl := hb.length
  have hble := hb.le
  have hbd := hb.dvd
  have hge := recordLength_ge g p
  have hdn : g.writesize ∣ roundup (p.length + 8) g.writesize := dvd_roundup _ _
  have hmeta := (circularRecord_meta hge).1
  have hrec := circularRecord_length hge
  rw [hgeo, h.geo] at hbl hble hbd
  -- The record lies at the position, behind what was there before.
  have hmarked : b.writeArea ≠ 0 → found ≠ 0 →
      leNat (slice (b.writeArea - 8) 4 (b.block.take b.writeArea)) = circularMagic := by
    intro h0 hf
    cases hroom with
    | behind =>
      have h8 := Nat.le_of_dvd (Nat.pos_of_ne_zero h0) hbd
      have := g.le_writesize
      rw [slice_take (by omega)]
      exact h.marked h0 hf
    | erased => exact absurd rfl h0
  have hwrap : b.writeArea + roundup (p.length + 8) g.writesize = g.erasesize → b.block.take b.writeArea = [] := by
    intro hfull
    cases hroom with
    | behind _ hlt => rw [h.geo] at hlt; omega
    | erased => rfl
  have hready : Ready (b.append (circularRecord p (roundup (p.length + 8) g.writesize))
      (roundup (p.length + 8) g.writesize)) := by
    refine ⟨?_, hb.int, ?_, ?_, .inr ?_⟩
    · rw [BucketCircular.append, splice_length (by simp only [List.length_take]; omega), hbl, hgeo, h.geo]
    · simp only [BucketCircular.append, hrec, hgeo, h.geo]
      exact Nat.dvd_add hbd hdn
    · simp only [BucketCircular.append, hrec, hgeo, h.geo]
      exact hble
    · simp only [BucketCircular.append, hrec]
      rw [drop_splice (by omega) (by simp only [List.length_take]; omega)]
      have := hb.free.drop (roundup (p.length + 8) g.writesize)
      rwa [List.drop_drop] at this
  generalize hn : roundup (p.length + 8) g.writesize = n at *
  have htake : (circularRecord p n).take n = circularRecord p n := List.take_of_length_le (by omega)
  refine ⟨hready, hgeo.trans h.geo, hroom.same.2.1.trans h.length, fun _ _ => ?_, fun q hq => ?_⟩
  · simp only [BucketCircular.append, hrec, htake]
    have hs : slice (b.writeArea + n - 8) 4 (splice b.writeArea (circularRecord p n) b.block) =
        slice (n - 8) 4 (slice b.writeArea n (splice b.writeArea (circularRecord p n) b.block)) := by
      rw [slice_slice (by omega), show b.writeArea + (n - 8) = b.writeArea + n - 8 by omega]
    have hself : slice b.writeArea n (splice b.writeArea (circularRecord p n) b.block) = circularRecord p n := by
      have : slice b.writeArea (circularRecord p n).length (splice b.writeArea (circularRecord p n) b.block) =
          circularRecord p n := slice_splice_self (by omega)
      rwa [hrec] at this
    rw [hs, hself, hmeta, leNat_leBytes_of_lt (by decide)]
  · obtain rfl : p = q := by simpa [CircularLog.written] using hq
    have hfront : (b.block.take b.writeArea).length = b.writeArea := by
      rw [List.length_take]
      omega
    refine ⟨b.block.take b.writeArea, ⟨⟨b.block.drop (b.writeArea + n), ?_⟩, ?_, ?_, fun hne hf => ?_⟩,
        .inl ⟨?_, fun _ => rfl⟩⟩
    · simp only [BucketCircular.append, htake, splice, hrec, hn]
    · rw [hfront, hn]
      exact hble
    · rw [hfront, hn]
      exact hwrap
    · rw [hfront]
      exact hmarked (fun h0 => hne (by rw [h0, List.take_zero])) hf
    · rw [hfront, hn]
      simp only [BucketCircular.append, hrec]

theorem Positioned.write {found : Nat} (h : Positioned g found log c) (p : Bytes) {env env' : Env} {c' : BucketCircular}
    {ret : Int} (henv : env.Clean) (hw : bucketCircularWrite env c p = (env', c', ret)) :
    Positioned g found ((.write p, ret) :: log) c' := by
  by_cases hfit : roundup (p.length + 8) c.geo.writesize ≤ c.geo.erasesize
  · obtain ⟨env₁, b, t, -, hroom, hw'⟩ := bucketCircularWrite_clean henv h.ready hfit
    rw [hw] at hw'
    cases hw'
    rw [h.geo] at hroom ⊢
    exact h.append hroom
  · obtain ⟨env₁, ret', hw', hne⟩ : ∃ env' ret, bucketCircularWrite env c p = (env', c, ret) ∧ ret ≠ 0 :=
      bucketCircularWrite_refused h.ready (by omega)
    rw [hw] at hw'
    cases hw'
    have hlog : CircularLog.written ((.write p, ret) :: log) = log.written := if_neg hne
    have hread : CircularLog.readSince ((.write p, ret) :: log) = log.readSince := if_neg hne
    refine ⟨h.ready, h.geo, h.length, h.marked, ?_⟩
    rw [hlog, hread]
    exact h.last

end

theorem Session.leave_bucket {env : Env} {c c' : BucketCircular} (h : (Session.leave env c).bucket = some c') :
    c' = c := by
  simp only [Session.leave] at h
  split at h <;> cases h
  rfl

theorem Session.exec_create {g : Geometry} {s : Session} {faults : List Fault} {c : BucketCircular}
    (h : (s.exec g faults .create).1.bucket = some c) :
    ∃ env, bucketCircularCreate { faults := faults, trace := .create :: s.trace } g s.block = (env, some c) := by
  simp only [Session.exec] at h
  split at h
  · cases h
  · next env c₁ heq =>
    rw [Session.leave_bucket h]
    exact ⟨env, heq⟩

theorem Positioned.opened {g : Geometry} {block : Bytes} (hb : block.length = g.erasesize) {c : BucketCircular}
    (hc : ((⟨block, none, []⟩ : Session).exec g [] .create).1.bucket = some c) :
    Positioned g (lengthFound g block) [] c := by
  obtain ⟨env, hcr⟩ := Session.exec_create hc
  obtain ⟨-, hsome⟩ := bucketCircularCreate_cases hb hcr
  obtain ⟨hready, hgeo, -, -⟩ := hsome c rfl
  have hint := hready.int
  rw [hgeo] at hint
  have henv : Env.Clean { faults := [], trace := [Event.create] } := ⟨rfl, rfl⟩
  rw [bucketCircularCreate_clean henv hint hb, Prod.mk.injEq, Option.some.injEq] at hcr
  rw [← hcr.2]
  exact .create hb hint

/-- One step of a process, and the bucket it leaves open. -/
theorem Positioned.step {g : Geometry} {found : Nat} {log : CircularLog} {s s' : Session} {c c' : BucketCircular}
    (h : Positioned g found log c) (hs : s.bucket = some c) {op : CircularOp} {ret : Int} (hop : op ≠ .create)
    (hex : s.exec g [] op = (s', ret)) (hc : s'.bucket = some c') : Positioned g found ((op, ret) :: log) c' := by
  cases op with
  | create => exact absurd rfl hop
  | read =>
    simp only [Session.exec, hs] at hex
    have hpos := h.read { faults := [], trace := s.trace } ret
    rcases hrd : bucketCircularRead { faults := [], trace := s.trace } c with ⟨env, c₁, r, buf, len⟩
    rw [hrd] at hpos
    simp only [hrd, Prod.mk.injEq] at hex
    obtain ⟨rfl, -⟩ := hex
    rw [Session.leave_bucket hc]
    exact hpos
  | write p =>
    simp only [Session.exec, hs] at hex
    rcases hwr : bucketCircularWrite { faults := [], trace := s.trace } c p with ⟨env, c₁, r⟩
    simp only [hwr, Prod.mk.injEq] at hex
    obtain ⟨rfl, rfl⟩ := hex
    rw [Session.leave_bucket hc]
    exact h.write p ⟨rfl, rfl⟩ hwr

theorem exec_closed {g : Geometry} {s s' : Session} (hs : s.bucket = none) {op : CircularOp} {ret : Int}
    (hop : op ≠ .create) (hex : s.exec g [] op = (s', ret)) : s'.bucket = none := by
  cases op with
  | create => exact absurd rfl hop
  | read | write =>
    simp only [Session.exec, hs, Prod.mk.injEq] at hex
    rw [← hex.1]
    exact hs

/-- Throughout a process the bucket it has open is where its log says. -/
theorem positioned_invariant {g : Geometry} {block : Bytes} (hb : block.length = g.erasesize) :
    (processSystem g block).Invariant fun log s => ∀ c, s.bucket = some c →
        Positioned g (lengthFound g block) log c where
  init := by
    rintro s rfl c hc
    exact .opened hb hc
  step := by
    rintro log s ⟨op, ret⟩ s' h ⟨hop, hex⟩ c hc
    cases hs : s.bucket with
    | none =>
      rw [exec_closed hs hop hex] at hc
      cases hc
    | some c₀ => exact (h c₀ hs).step hs hop hex hc

/-- **Read after write within one process**: a read that follows a write
returns its payload exactly if the record found when the bucket was opened has
the same length, or none was found, the new record fills the eraseblock, and
there was no read since. -/
theorem circular_reread_iff {g : Geometry} {block : Bytes} (hb : block.length = g.erasesize) {log : CircularLog}
    {s : Session} {c : BucketCircular} {p : Bytes} (h : (processSystem g block).Run log s) (hc : s.bucket = some c)
    (hp : log.written = some p) :
    c.ReadsBack p ↔ lengthFound g block = roundup (p.length + 8) g.writesize ∨
      lengthFound g block = 0 ∧ roundup (p.length + 8) g.writesize = g.erasesize ∧ log.readSince = false := by
  have hpos := (positioned_invariant hb).run h c hc
  obtain ⟨front, hrec, hlast⟩ := hpos.last p hp
  rw [readsBack_iff hpos.ready]
  have hge := recordLength_ge g p
  rw [← hpos.length] at hrec hlast ⊢
  rcases hlast with ⟨hw, hread⟩ | ⟨hw, hread, hne⟩
  · rw [hrec.readable_iff hpos.ready hpos.geo hw]
    refine or_congr_right (and_congr_right fun h0 => ?_)
    simp only [hread h0, and_true]
  · have hnone : c.readable = none := by rw [BucketCircular.readable, if_pos hw]
    rw [hnone, hread]
    refine iff_of_false (by simp) ?_
    simp [hne]

/-- The process on the small block `block` that does these operations. -/
def runSmall (block : Bytes) (ops : List CircularOp) : Session :=
  ops.foldl (fun s op => (s.exec .small [] op).1) ((⟨block, none, []⟩ : Session).exec .small [] .create).1

/-- A block that already holds a record of 16 bytes. -/
def usedBlock : Bytes := circularRecord [1, 2, 3] 16 ++ List.replicate 16 0xff

/-- A record of the same length is read back, also for the second time. -/
theorem circular_reread_used : ∃ s c, (processSystem .small usedBlock).Run [(.read, 0), (.write [4, 5, 6], 0)] s ∧
    s.bucket = some c ∧ c.ReadsBack [4, 5, 6] := by
  have hrun : (processSystem .small usedBlock).Run [(.read, 0), (.write [4, 5, 6], 0)]
      (runSmall usedBlock [.write [4, 5, 6], .read]) :=
    .step (.step (.init rfl) ⟨by decide, Prod.ext rfl (by decide +kernel)⟩)
        ⟨by decide, Prod.ext rfl (by decide +kernel)⟩
  obtain ⟨c, hc⟩ : ∃ c, (runSmall usedBlock [.write [4, 5, 6], .read]).bucket = some c :=
    Option.isSome_iff_exists.1 (by decide +kernel)
  exact ⟨_, c, hrun, hc, (circular_reread_iff (by decide) hrun hc rfl).2 (.inl (by decide +kernel))⟩

/-- On an erased block the read after the first write delivers the metadata
too, and the one after that nothing. -/
theorem circular_reread_erased : ∃ s c,
    (processSystem .small (List.replicate 32 0xff)).Run [(.write [1, 2, 3], 0)] s ∧ s.bucket = some c ∧
    (bucketCircularRead .ok c).2.2 = (0, circularRecord [1, 2, 3] 16, 16) ∧
    (bucketCircularRead .ok (bucketCircularRead .ok c).2.1).2.2.1 = -ENODATA ∧ ¬ c.ReadsBack [1, 2, 3] := by
  have hrun : (processSystem .small (List.replicate 32 0xff)).Run [(.write [1, 2, 3], 0)]
      (runSmall (List.replicate 32 0xff) [.write [1, 2, 3]]) :=
    .step (.init rfl) ⟨by decide, Prod.ext rfl (by decide +kernel)⟩
  obtain ⟨c, hc⟩ : ∃ c, (runSmall (List.replicate 32 0xff) [.write [1, 2, 3]]).bucket = some c :=
    Option.isSome_iff_exists.1 (by decide +kernel)
  have hread : (bucketCircularRead .ok c).2.2 = (0, circularRecord [1, 2, 3] 16, 16) := by
    have : (runSmall (List.replicate 32 0xff) [.write [1, 2, 3]]).bucket.map (fun c => (bucketCircularRead .ok c).2.2) =
        some (0, circularRecord [1, 2, 3] 16, 16) := by decide +kernel
    rwa [hc, Option.map_some, Option.some.injEq] at this
  have hagain : (bucketCircularRead .ok (bucketCircularRead .ok c).2.1).2.2.1 = -ENODATA := by
    have : (runSmall (List.replicate 32 0xff) [.write [1, 2, 3]]).bucket.map (fun c =>
        (bucketCircularRead .ok (bucketCircularRead .ok c).2.1).2.2.1) = some (-ENODATA) := by decide +kernel
    rwa [hc, Option.map_some, Option.some.injEq] at this
  refine ⟨_, c, hrun, hc, hread, hagain, fun h => ?_⟩
  obtain ⟨env', c', buf, len, k, hr, hp⟩ := h .ok .ok
  rw [hr] at hread
  simp only [Prod.mk.injEq] at hread
  obtain ⟨-, rfl, rfl⟩ := hread
  have hk : k = 13 := by
    have := congrArg List.length hp
    simp [circularRecord, circularMeta, circularMetaSize] at this
    omega
  subst hk
  revert hp
  decide

end DtUtils
