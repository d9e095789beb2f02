/-
A save over circular buckets that a power loss cuts short, and the load of the
next process. Only the first bucket can be read as anything but the two
payloads. A record of which the last page is missing has no length in front of
the used end, and `bucketCircularRead` takes such a block for one in the old
format and reads it from its beginning, where an older record may lie. The next
process finds the last payload or the new one exactly if what is read there, or
as far in front of the used end as a length among the payload's own bytes says,
is no other payload (`circular_crash_atomic_iff`).
-/
import DtUtils.CircularRuns
import DtUtils.Repair
import DtUtils.Durability
import DtUtils.RawRoundTrip

namespace DtUtils
open Lib

/-- An open bucket with any history of creates, reads and writes that
succeeded, the last one of `p`. -/
def BucketCircular.LastSaved (p : Bytes) (c : BucketCircular) : Prop :=
  ∃ ops s, (writingSystem c.geo).Run ops s ∧ lastWrite ops = some p ∧ s.bucket = some c

/-- What `state_storage_write` leaves of the buckets. -/
def bucketsAfterSave (env : Env) (cs : List BucketCircular) (buf : Bytes) : List Bucket :=
  (stateStorageWrite bucketDriver env (.fresh false (cs.map .circular)) buf).2.1.buckets.map fun b => b.priv

/-- The next process uses one of two data, and finds one if there is more than
one bucket. -/
structure CrashAtomic {F : Type} (verify : Verify F) (format : F) (env : Env) (bs : List Bucket) (old new : Bytes) :
    Prop where
  one : (loadBuckets verify format env bs).ret = 0 →
    (loadBuckets verify format env bs).buf.take (loadBuckets verify format env bs).len.toNat = old ∨
      (loadBuckets verify format env bs).buf.take (loadBuckets verify format env bs).len.toNat = new
  found : 2 ≤ bs.length → (loadBuckets verify format env bs).ret = 0

/-! ## Where a record is cut -/

/-- A record of `n` bytes goes to the front of the block, which is erased
before. -/
def BucketCircular.Wraps (c : BucketCircular) (n : Nat) : Prop := c.writeArea = 0 ∨ c.geo.erasesize ≤ c.writeArea + n

instance (c : BucketCircular) (n : Nat) : Decidable (c.Wraps n) := inferInstanceAs (Decidable (_ ∨ _))

/-- The bucket that a record of `n` bytes is appended to. -/
def BucketCircular.cleared (c : BucketCircular) (n : Nat) : BucketCircular :=
  if c.Wraps n then { c with writeArea := 0, block := List.replicate c.geo.erasesize 0xff } else c

/-- The block with the first `k` bytes of the record of `buf`. -/
def BucketCircular.torn (c : BucketCircular) (buf : Bytes) (k : Nat) : Bytes :=
  let n := circularWrittenLength c.geo buf.length
  ((c.cleared n).append (circularRecord buf n) k).block

/-- In a write of `buf` the power fails once `k` bytes of the record are on
the medium. -/
def CutAfter (env : Env) (c : BucketCircular) (buf : Bytes) (k : Nat) : Prop :=
  let n := circularWrittenLength c.geo buf.length
  buf.length + 8 ≤ n ∧ n ≤ c.geo.erasesize ∧
    if c.Wraps n then env.next = .done ∧ env.pop.next = .powerLoss k else env.next = .powerLoss k

/-- The bytes `x` are where the next process looks for the bucket's data: at
the front of the block if there is no magic or no length in front of the used
end, else as far in front of it as the length says. -/
inductive Reread (g : Geometry) (block x : Bytes) : Prop
  | front : usedEnd g.writesize block ≠ 0 → lengthWord (usedEnd g.writesize block) block = 0 →
      x = block.take (min (usedEnd g.writesize block) (g.erasesize - 8)) → Reread g block x
  | marked {n : Nat} : n = lengthWord (usedEnd g.writesize block) block → 0 < n → n ≤ usedEnd g.writesize block →
      g.writesize ∣ n → x = slice (usedEnd g.writesize block - n) (n - 8) block → Reread g block x

theorem reread_iff {g : Geometry} {block x : Bytes} : Reread g block x ↔ circularPayload g block = some x := by
  simp only [circularPayload, BucketCircular.scanned, BucketCircular.readable]
  by_cases h0 : usedEnd g.writesize block = 0
  · rw [if_pos h0]
    refine iff_of_false ?_ (by simp)
    rintro (⟨hne, -, -⟩ | ⟨-, hpos, hle, -, -⟩)
    · exact hne h0
    · omega
  rw [if_neg h0]
  by_cases hl : lengthWord (usedEnd g.writesize block) block = 0
  · rw [if_neg h0, if_pos hl, Option.some.injEq]
    constructor
    · rintro (⟨-, -, rfl⟩ | ⟨rfl, hpos, -, -, -⟩)
      · rfl
      · omega
    · rintro rfl
      exact .front h0 hl rfl
  rw [if_neg h0, if_neg hl]
  by_cases hv : usedEnd g.writesize block < lengthWord (usedEnd g.writesize block) block ∨
      lengthWord (usedEnd g.writesize block) block % g.writesize ≠ 0
  · rw [if_pos hv]
    refine iff_of_false ?_ (by simp)
    rintro (⟨-, hl', -⟩ | ⟨rfl, -, hle, hd, -⟩)
    · exact hl hl'
    · have := Nat.mod_eq_zero_of_dvd hd
      omega
  · rw [if_neg hv, Option.some.injEq]
    simp only [not_or, not_lt, ne_eq, not_not] at hv
    constructor
    · rintro (⟨-, hl', -⟩ | ⟨rfl, -, -, -, rfl⟩)
      · exact absurd hl' hl
      · rfl
    · rintro rfl
      exact .marked rfl (by omega) hv.1 (Nat.dvd_of_mod_eq_zero hv.2) rfl

theorem circularPayload_erased {g : Geometry} {block : Bytes} (hb : block.length = g.erasesize) (h : AllFf block) :
    circularPayload g block = none := by
  have h0 := usedEnd_eq_zero g.writesize_pos (hb ▸ g.dvd) h
  simp only [circularPayload, BucketCircular.scanned, BucketCircular.readable, h0, if_true]

theorem CutAfter.unique {env : Env} {c : BucketCircular} {buf : Bytes} {j k : Nat} (hj : CutAfter env c buf j)
    (hk : CutAfter env c buf k) : j = k := by
  obtain ⟨-, -, hj⟩ := hj
  obtain ⟨-, -, hk⟩ := hk
  by_cases hw : c.Wraps (circularWrittenLength c.geo buf.length)
  · rw [if_pos hw] at hj hk
    exact Fault.powerLoss.inj (hj.2.symm.trans hk.2)
  · rw [if_neg hw] at hj hk
    exact Fault.powerLoss.inj (hj.symm.trans hk)

/-! ## One bucket -/

/-- A program operation is carried out, or the power fails in it. -/
theorem bucketCircularAppend_power {env : Env} {b : BucketCircular} {record : Bytes} (hb : HasRoom b record.length)
    (halive : env.alive = true) (hpow : env.PowerOnly) :
    ∃ env' ret k, bucketCircularAppend env b record = (env', b.append record k, ret) ∧
      (env.next = .done ∧ k = record.length ∨ env.next = .powerLoss k ∧ env'.alive = false) := by
  have hle := hb.le
  have hint := hb.int
  have hbl := hb.length
  have hrel := peb_rel hb.int (show b.writeArea ≤ b.geo.erasesize by omega)
  have hlen : cInt (record.length : Int) = record.length := cInt_of_lt (by omega) (by omega)
  have hps : ∀ k, pebSplice (b.writeArea : Int) (record.take k) b.block =
      splice b.writeArea (record.take k) b.block := by
    intro k
    rw [pebSplice, if_pos, Int.toNat_natCast]
    simp only [Int.toNat_natCast, List.length_take]
    omega
  simp only [bucketCircularAppend, stateMtdPebWrite, hrel, hlen, Int.toNat_natCast]
  rw [if_neg (by omega), if_pos halive]
  rcases hpow.next with hn | ⟨k, hn⟩
  · have hw : ∀ e, writeFull (env.log e) record =
        ((env.log e).pop, (record.length : Int), record.take record.length) := by
      intro e
      simp [writeFull, halive, hn]
    simp only [hw, hps]
    rw [if_neg (by omega)]
    exact ⟨_, _, record.length, rfl, .inl ⟨hn, rfl⟩⟩
  · have hw : ∀ e, writeFull (env.log e) record = ((env.log e).pop.crash, -1, record.take k) := by
      intro e
      simp [writeFull, halive, hn]
    simp only [hw, hps]
    rw [if_pos (by omega)]
    exact ⟨_, _, k, rfl, .inr ⟨hn, rfl⟩⟩

/-- What a write that at most the power can stop makes of the block. -/
inductive Interrupted (env : Env) (c : BucketCircular) (buf : Bytes) (r : Env × BucketCircular × Int) : Prop
  | kept : (∀ k, ¬ CutAfter env c buf k) → r.2.1.block = c.block → Interrupted env c buf r
  | erased : (∀ k, ¬ CutAfter env c buf k) → AllFf r.2.1.block → r.1.alive = false → Interrupted env c buf r
  | whole : (∀ k, ¬ CutAfter env c buf k) → Stored c.geo buf r.2.1.block → Interrupted env c buf r
  | cut (k : Nat) : CutAfter env c buf k → r.2.1.block = c.torn buf k → r.1.alive = false → Interrupted env c buf r

/-- The record gets to the bucket `b` it is appended to, if the power holds
until then. -/
theorem Interrupted.append {env env₁ : Env} {c b : BucketCircular} {buf : Bytes} {n : Nat} {t t' : List Event}
    (hc : Ready c) (hn : circularWrittenLength c.geo buf.length = n) (hfit : buf.length + 8 ≤ n)
    (hroom : Room c n t b t') (hb : c.cleared n = b) (halive : env₁.alive = true) (hpow : env₁.PowerOnly)
    (hcut : ∀ k, CutAfter env c buf k ↔ env₁.next = .powerLoss k) :
    Interrupted env c buf (bucketCircularAppend env₁ b (circularRecord buf n)) := by
  have hrec : (circularRecord buf n).length = n := circularRecord_length hfit
  have hroom' := hroom.hasRoom hc
  obtain ⟨env', ret, k, h, ⟨hdone, rfl⟩ | ⟨hlost, hdead⟩⟩ :=
    bucketCircularAppend_power (hrec.symm ▸ hroom') halive hpow
  · have hgeo := hroom.same.1
    have hst := Stored.append (b := b) (p := buf) (by rw [hgeo, ← hn, circularWrittenLength_eq (by omega)]) hroom'
    rw [h, hrec]
    refine .whole (fun k hk => ?_) (hgeo ▸ hst)
    have := (hcut k).1 hk
    rw [hdone] at this
    cases this
  · rw [h]
    refine .cut k ((hcut k).2 hlost) ?_ hdead
    simp only [BucketCircular.torn, hn, hb]

theorem bucketCircularWrite_interrupted {env : Env} {c : BucketCircular} (hc : Ready c) (halive : env.alive = true)
    (hpow : env.PowerOnly) (buf : Bytes) : Interrupted env c buf (bucketCircularWrite env c buf) := by
  simp only [bucketCircularWrite, circularMetaSize]
  generalize hn : circularWrittenLength c.geo buf.length = n
  rw [show (if c.geo.erasesize ≤ c.writeArea + n then { c with writeArea := 0 } else c) = c.wrap n from rfl]
  by_cases hbig : c.geo.erasesize < n
  · rw [if_pos hbig]
    exact .kept (fun k hk => by have := hk.2.1; omega) rfl
  rw [if_neg hbig]
  by_cases hshort : n < buf.length + 8
  · rw [if_pos hshort]
    exact .kept (fun k hk => by have := hk.1; omega) rfl
  rw [if_neg hshort]
  have hcut : ∀ k, CutAfter env c buf k ↔
      if c.Wraps n then env.next = .done ∧ env.pop.next = .powerLoss k else env.next = .powerLoss k := by
    intro k
    simp only [CutAfter, hn]
    exact ⟨fun h => h.2.2, fun h => ⟨by omega, by omega, h⟩⟩
  rcases c.wrap_cases n with ⟨h0, hw⟩ | ⟨h0, hlt, hw⟩
  · -- The block is erased first.
    have hwraps : c.Wraps n := by
      rw [BucketCircular.wrap] at h0
      by_cases h : c.geo.erasesize ≤ c.writeArea + n
      · exact .inr h
      · rw [if_neg h] at h0
        exact .inl h0
    simp only [if_pos hwraps] at hcut
    rw [if_pos h0, hw]
    have hroom : Room c n env.trace _ _ := Room.erased (by omega)
    rcases hpow.next with hne | ⟨k, hne⟩
    · simp only [stateMtdPebErase, halive, hne, if_true, ne_eq, not_true_eq_false, if_false]
      exact .append hc hn (by omega) hroom (if_pos hwraps) halive hpow.pop fun k => by
        rw [hcut]
        exact and_iff_right hne
    · have hno : ∀ k, ¬ CutAfter env c buf k := by
        intro j hj
        have := ((hcut j).1 hj).1
        rw [hne] at this
        cases this
      cases k with
      | zero =>
        simp only [stateMtdPebErase, halive, hne, if_true]
        rw [if_pos (by decide)]
        exact .kept hno rfl
      | succ k =>
        simp only [stateMtdPebErase, halive, hne, if_true]
        rw [if_pos (by decide)]
        exact .erased hno (AllFf.replicate _) rfl
  · have hwraps : ¬ c.Wraps n := by
      rw [BucketCircular.Wraps]
      omega
    simp only [if_neg hwraps] at hcut
    rw [hw, if_neg h0]
    exact .append hc hn (by omega) (Room.behind (t := env.trace) h0 hlt) (if_neg hwraps) halive hpow hcut

theorem bucketCircularWrite_stopped {env : Env} (h : env.alive = false) (c : BucketCircular) (buf : Bytes) :
    (bucketCircularWrite env c buf).1.alive = false ∧ (bucketCircularWrite env c buf).2.1.geo = c.geo ∧
      (bucketCircularWrite env c buf).2.1.block = c.block := by
  have happend : ∀ (c' : BucketCircular) record, (bucketCircularAppend env c' record).1.alive = false ∧
      (bucketCircularAppend env c' record).2.1.geo = c'.geo ∧
        (bucketCircularAppend env c' record).2.1.block = c'.block := by
    intro c' record
    have hnil : ∀ rel, pebSplice rel [] c'.block = c'.block := by
      intro rel
      simp [pebSplice, splice]
    simp only [bucketCircularAppend, stateMtdPebWrite, h, Bool.false_eq_true, if_false, writeFull, hnil]
    split
    · exact ⟨h, rfl, rfl⟩
    · split <;> exact ⟨h, rfl, rfl⟩
  have herase : ∀ c' : BucketCircular, stateMtdPebErase env c' = (env, c', -1) := by
    intro c'
    simp [stateMtdPebErase, h]
  simp only [bucketCircularWrite, herase]
  split
  · exact ⟨h, rfl, rfl⟩
  split
  · exact ⟨rfl, rfl, rfl⟩
  generalize hw : (if c.geo.erasesize ≤ c.writeArea + circularWrittenLength c.geo buf.length then
    { c with writeArea := 0 } else c) = c'
  have hsame : c'.geo = c.geo ∧ c'.block = c.block := by
    rw [← hw]
    split <;> exact ⟨rfl, rfl⟩
  obtain ⟨h1, h2, h3⟩ := happend c' (circularRecord buf (circularWrittenLength c.geo buf.length))
  split
  · rw [if_pos (by decide)]
    exact ⟨h, hsame⟩
  · exact ⟨h1, h2.trans hsame.1, h3.trans hsame.2⟩

/-! ## All buckets -/

theorem bucketsAfterSave_nil (env : Env) (buf : Bytes) : bucketsAfterSave env [] buf = [] := rfl

theorem bucketsAfterSave_cons (env : Env) (c : BucketCircular) (cs : List BucketCircular) (buf : Bytes) :
    bucketsAfterSave env (c :: cs) buf =
      .circular (bucketCircularWrite env c buf).2.1 :: bucketsAfterSave (bucketCircularWrite env c buf).1 cs buf := by
  simp only [bucketsAfterSave, stateStorageWrite, Storage.fresh, Bool.false_eq_true, if_false, List.map_cons,
    sweep_cons, writeBucket, bucketDriver, circularDriver]

@[simp] theorem bucketsAfterSave_length (env : Env) (cs : List BucketCircular) (buf : Bytes) :
    (bucketsAfterSave env cs buf).length = cs.length := by
  induction cs generalizing env with
  | nil => rfl
  | cons c cs ih => rw [bucketsAfterSave_cons, List.length_cons, List.length_cons, ih]

theorem bucketsAfterSave_fit {env : Env} {cs : List BucketCircular} {buf : Bytes} (hcs : ∀ c ∈ cs, Ready c) :
    ∀ b ∈ bucketsAfterSave env cs buf, b.Fit ∧ ∃ c, b = .circular c := by
  induction cs generalizing env with
  | nil =>
    intro b hb
    cases hb
  | cons c cs ih =>
    obtain ⟨hready, -⟩ := bucketCircularWrite_ready (hcs c (by simp))
      (show bucketCircularWrite env c buf = (_, _, _) from rfl)
    intro b hb
    rw [bucketsAfterSave_cons] at hb
    rcases List.mem_cons.1 hb with rfl | hb
    · exact ⟨⟨hready.length, hready.int⟩, _, rfl⟩
    · exact ih (fun c hc => hcs c (by simp [hc])) b hb

section
variable {magic : UInt32} {noAuth : Bool} {raw : RawFormat} {auth : Option Digest} {p old new : Bytes} {n l m : Nat}

theorem BucketCircular.LastSaved.stored {c : BucketCircular} (h : c.LastSaved p) :
    Ready c ∧ Stored c.geo p c.block := by
  obtain ⟨ops, s, hrun, hlast, hb⟩ := h
  have hkept := (kept_invariant c.geo).run hrun
  obtain ⟨hready, -, hblock⟩ := hkept.bucket c hb
  exact ⟨hready, hblock ▸ hkept.last p hlast⟩

/-- A load that finds `sel` uses one of the two data, or finds nothing in a
storage of one bucket. -/
def OneOf (check : Bytes → Int × Int) (count : Nat) (old new : Bytes) (sel : Option Bytes) : Prop :=
  (∀ x, sel = some x → passedOn check x = old ∨ passedOn check x = new) ∧ (2 ≤ count → sel ≠ none)

theorem crashAtomic_iff {env : Env} (henv : env.Clean) {bs : List Bucket}
    (hbs : ∀ b ∈ bs, b.Fit ∧ ∃ c, b = .circular c) :
    CrashAtomic (backendFormatRawVerify magic noAuth) raw env bs old new ↔
      OneOf (rawCheck magic (effectiveAuth noAuth raw.algo)) bs.length old new
        (firstVerified (rawCheck magic (effectiveAuth noAuth raw.algo)) (bs.filterMap Bucket.content)) := by
  have halike : ∀ b ∈ bs, ∀ b' ∈ bs, b.Alike b' := by
    intro b hb b' hb'
    obtain ⟨-, c, rfl⟩ := hbs b hb
    obtain ⟨-, c', rfl⟩ := hbs b' hb'
    trivial
  have hload := loadBuckets_clean (raw_judges magic noAuth raw.algo) (raw_strict magic noAuth raw.algo) rfl henv
    (fun b hb => (hbs b hb).1) halike
  cases hsel : firstVerified (rawCheck magic (effectiveAuth noAuth raw.algo)) (bs.filterMap Bucket.content) with
  | none =>
    rw [hsel] at hload
    have hret : (loadBuckets (backendFormatRawVerify magic noAuth) raw env bs).ret ≠ 0 := by
      rw [hload]
      decide
    exact ⟨fun h => ⟨by simp, fun h2 => absurd (h.found h2) hret⟩,
      fun h => ⟨fun h0 => absurd h0 hret, fun h2 => absurd rfl (h.2 h2)⟩⟩
  | some x =>
    rw [hsel] at hload
    constructor
    · intro h
      refine ⟨fun y hy => ?_, by simp⟩
      cases hy
      have hone := h.one hload.ret
      rwa [hload.data] at hone
    · intro h
      have hone := h.1 x rfl
      rw [← hload.data] at hone
      exact ⟨fun _ => hone, fun _ => hload.ret⟩

section
variable {check : Bytes → Int × Int} {count : Nat} {data : Bytes} {b : Bucket} {bs : List Bucket}

theorem OneOf.carries (h : Carries check data b.content) (hdata : data = old ∨ data = new) :
    OneOf check count old new (firstVerified check ((b :: bs).filterMap Bucket.content)) := by
  obtain ⟨x, hx, hok, hpass⟩ := h
  rw [List.filterMap_cons_some hx, firstVerified_pos hok]
  refine ⟨fun y hy => ?_, by simp⟩
  cases hy
  rwa [hpass]

theorem firstVerified_skip (h : ∀ x, b.content = some x → (check x).1 ≠ 0) :
    firstVerified check ((b :: bs).filterMap Bucket.content) = firstVerified check (bs.filterMap Bucket.content) := by
  cases hx : b.content with
  | none => rw [List.filterMap_cons_none hx]
  | some x => rw [List.filterMap_cons_some hx, firstVerified_neg (h x hx)]

end

theorem Stored.carries {g : Geometry} {block : Bytes} (hauth : effectiveAuth noAuth raw.algo = .ok auth)
    (hp : RawAccepted magic auth p n) (h : Stored g p block) :
    Carries (rawCheck magic (effectiveAuth noAuth raw.algo)) (p.take n) (circularPayload g block) := by
  have hvalid : Valid (rawCheck magic (effectiveAuth noAuth raw.algo)) p n := hp.valid hauth
  exact ⟨_, h.payload, by rw [hvalid.accepted], hvalid.passedOn _⟩

/-- Behind a bucket in which the process was stopped the others hold the last
payload. -/
theorem OneOf.stopped (hauth : effectiveAuth noAuth raw.algo = .ok auth) (hold : RawAccepted magic auth old l)
    {cs : List BucketCircular} (hcs : ∀ c ∈ cs, Stored c.geo old c.block) {env : Env} (hdead : env.alive = false)
    (buf data : Bytes) :
    OneOf (rawCheck magic (effectiveAuth noAuth raw.algo)) (cs.length + 1) (old.take l) data
      (firstVerified (rawCheck magic (effectiveAuth noAuth raw.algo))
        ((bucketsAfterSave env cs buf).filterMap Bucket.content)) := by
  cases cs with
  | nil => exact ⟨by simp [bucketsAfterSave_nil, firstVerified], by simp⟩
  | cons c cs =>
    obtain ⟨-, hgeo, hblock⟩ := bucketCircularWrite_stopped hdead c buf
    rw [bucketsAfterSave_cons]
    refine OneOf.carries ?_ (.inl rfl)
    rw [Bucket.content, hgeo, hblock]
    exact (hcs c (by simp)).carries hauth hold

/-- What the first bucket holds decides, unless it does not verify. -/
theorem OneOf.cons_iff (hauth : effectiveAuth noAuth raw.algo = .ok auth) {count : Nat} {b : Bucket} {bs : List Bucket}
    (hrest : OneOf (rawCheck magic (effectiveAuth noAuth raw.algo)) count old new
      (firstVerified (rawCheck magic (effectiveAuth noAuth raw.algo)) (bs.filterMap Bucket.content))) :
    OneOf (rawCheck magic (effectiveAuth noAuth raw.algo)) count old new
        (firstVerified (rawCheck magic (effectiveAuth noAuth raw.algo)) ((b :: bs).filterMap Bucket.content)) ↔
      ∀ x n, b.content = some x → RawAccepted magic auth x n → x.take n = old ∨ x.take n = new := by
  constructor
  · intro h x n hx hacc
    have hvalid : Valid (rawCheck magic (effectiveAuth noAuth raw.algo)) x n := hacc.valid hauth
    have hcheck := hvalid.accepted []
    rw [List.append_nil] at hcheck
    have hsel := h.1 x (by rw [List.filterMap_cons_some hx, firstVerified_pos (by rw [hcheck])])
    rwa [passedOn, hcheck, Int.toNat_natCast] at hsel
  · intro h
    by_cases hok : ∃ x, b.content = some x ∧ (rawCheck magic (effectiveAuth noAuth raw.algo) x).1 = 0
    · obtain ⟨x, hx, hok⟩ := hok
      obtain ⟨d, hd, hacc⟩ := rawCheck_accepted effectiveAuth_error hok
      obtain rfl : auth = d := Except.ok.inj (hauth.symm.trans hd)
      have hpassed : x.take (passedOn (rawCheck magic (effectiveAuth noAuth raw.algo)) x).length =
          passedOn (rawCheck magic (effectiveAuth noAuth raw.algo)) x := by
        rw [passedOn, List.length_take, ← List.take_take, List.take_length]
      have hdata := h x _ hx hacc
      rw [hpassed] at hdata
      exact .carries ⟨x, hx, hok, rfl⟩ hdata
    · rw [firstVerified_skip fun x hx h0 => hok ⟨x, hx, h0⟩]
      exact hrest

/-- **Crash atomicity of the circular buckets**: after a save that a power loss
may cut short the next process uses the last payload or the new one, and finds
one of them if there are two buckets, exactly if no other packed payload stands
where the first bucket is read again when the power failed in its record. -/
theorem circular_crash_atomic_iff (hauth : effectiveAuth noAuth raw.algo = .ok auth)
    (hold : RawAccepted magic auth old l) (hnew : RawAccepted magic auth new m) {cs : List BucketCircular}
    (hcs : ∀ c ∈ cs, c.LastSaved old) {env₁ env₂ : Env} (halive : env₁.alive = true) (hpow : env₁.PowerOnly)
    (henv : env₂.Clean) :
    CrashAtomic (backendFormatRawVerify magic noAuth) raw env₂ (bucketsAfterSave env₁ cs new)
        (old.take l) (new.take m) ↔
      ∀ c ∈ cs.head?, ∀ k, CutAfter env₁ c new k → ∀ x n, Reread c.geo (c.torn new k) x →
        RawAccepted magic auth x n → x.take n = old.take l ∨ x.take n = new.take m := by
  have hstored : ∀ c ∈ cs, Ready c ∧ Stored c.geo old c.block := fun c hc => (hcs c hc).stored
  rw [crashAtomic_iff henv (bucketsAfterSave_fit fun c hc => (hstored c hc).1), bucketsAfterSave_length]
  cases cs with
  | nil => exact iff_of_true ⟨by simp [bucketsAfterSave_nil, firstVerified], by simp⟩ (by simp)
  | cons c cs =>
    obtain ⟨hready, hst⟩ := hstored c (by simp)
    obtain ⟨hready', hgeo⟩ : Ready (bucketCircularWrite env₁ c new).2.1 ∧
        (bucketCircularWrite env₁ c new).2.1.geo = c.geo := bucketCircularWrite_ready hready rfl
    rw [bucketsAfterSave_cons]
    simp only [List.head?_cons, Option.mem_def, Option.some.injEq, forall_eq']
    have hrest := fun hdead : (bucketCircularWrite env₁ c new).1.alive = false => OneOf.stopped hauth hold
      (fun c hc => (hstored c (List.mem_cons_of_mem _ hc)).2) hdead new (new.take m)
    cases bucketCircularWrite_interrupted hready halive hpow new with
    | kept hno hblock =>
      refine iff_of_true (.carries ?_ (.inl rfl)) fun k hk => absurd hk (hno k)
      rw [Bucket.content, hgeo, hblock]
      exact hst.carries hauth hold
    | erased hno hff hdead =>
      refine iff_of_true ?_ fun k hk => absurd hk (hno k)
      rw [firstVerified_skip fun x hx => by
        rw [Bucket.content, circularPayload_erased hready'.length hff] at hx
        cases hx]
      exact hrest hdead
    | whole hno hst' =>
      refine iff_of_true (.carries ?_ (.inr rfl)) fun k hk => absurd hk (hno k)
      rw [Bucket.content, hgeo]
      exact hst'.carries hauth hnew
    | cut k hk hblock hdead =>
      rw [List.length_cons, OneOf.cons_iff hauth (hrest hdead)]
      constructor
      · intro h j hj x n hx
        obtain rfl := hj.unique hk
        rw [reread_iff, ← hblock, ← hgeo] at hx
        exact h x n hx
      · intro h x n hx
        rw [Bucket.content, hgeo, hblock, ← reread_iff] at hx
        exact h k hk x n hx

end

/-! ## A flag in an eraseblock of sixteen pages -/

theorem flagPayload_packed (v : UInt8) : RawAccepted 1 none (flagPayload v) 17 := by
  have h := @packed_accepted 1 1 [v] (by decide) (le_refl _) none
  rwa [show authTag none _ = [] from rfl, List.append_nil] at h

def Geometry.pages : Geometry where
  eraseblock := 0
  writesize := 8
  erasesize := 128
  le_writesize := Geometry.small.le_writesize
  dvd := by decide
  pos := by decide
  erasesize_lt := by decide
  start_lt := by decide

/-- A process that opens the erased block. -/
def Session.flagOpened : Session := ((⟨List.replicate 128 0xff, none, []⟩ : Session).exec .pages [] .create).1

/-- It saves one flag and then another. -/
def Session.flagSaved : Session :=
  ((flagOpened.exec .pages [] (.write (flagPayload 0))).1.exec .pages [] (.write (flagPayload 1))).1

def flagBucket : BucketCircular := Session.flagSaved.bucket.getD ⟨.pages, 0, 0, false, []⟩

theorem flagBucket_lastSaved : flagBucket.LastSaved (flagPayload 1) := by
  have h₁ : (writingSystem .pages).Run [(.create, [])] Session.flagOpened :=
    .step (.init ⟨rfl, rfl, rfl⟩) ⟨_, rfl, fun p hp => by cases hp⟩
  have h₂ : (writingSystem .pages).Run [(.write (flagPayload 0), []), (.create, [])]
      (Session.flagOpened.exec .pages [] (.write (flagPayload 0))).1 :=
    .step h₁ ⟨_, rfl, fun p hp => ⟨by decide +kernel, by intro f hf; cases hf⟩⟩
  have h₃ : (writingSystem .pages).Run [(.write (flagPayload 1), []), (.write (flagPayload 0), []), (.create, [])]
      Session.flagSaved :=
    .step h₂ ⟨_, rfl, fun p hp => ⟨by decide +kernel, by intro f hf; cases hf⟩⟩
  have hsome : Session.flagSaved.bucket.isSome = true := by decide +kernel
  have hb : Session.flagSaved.bucket = some flagBucket := by
    rw [flagBucket]
    cases h : Session.flagSaved.bucket with
    | none => simp [h] at hsome
    | some c => rfl
  have hgeo : flagBucket.geo = .pages := (((kept_invariant .pages).run h₃).bucket _ hb).2.1
  exact ⟨_, _, hgeo ▸ h₃, rfl, hb⟩

/-- Of the third flag's record the first page reaches the first bucket: the
next process uses the first flag, which both buckets held before the second,
and writes it to the other bucket. -/
theorem circular_crash_uses_oldest :
    let left := bucketsAfterSave { faults := [.powerLoss 8] } [flagBucket, flagBucket] (flagPayload 2)
    let r := loadBuckets (backendFormatRawVerify 1 false) (backendFormatRawCreate none) .ok left
    flagBucket.LastSaved (flagPayload 1) ∧ r.ret = 0 ∧ r.buf.take r.len.toNat = flagPayload 0 ∧
      r.repairs = [none, some 0] ∧
      ¬ CrashAtomic (backendFormatRawVerify 1 false) (backendFormatRawCreate none) .ok left
        ((flagPayload 1).take 17) ((flagPayload 2).take 17) := by
  intro left r
  have hret : r.ret = 0 := by decide +kernel
  have hbuf : r.buf.take r.len.toNat = flagPayload 0 := by decide +kernel
  refine ⟨flagBucket_lastSaved, hret, hbuf, by decide +kernel, fun h => ?_⟩
  have hone := h.one hret
  rw [show (loadBuckets (backendFormatRawVerify 1 false) (backendFormatRawCreate none) .ok left).buf.take _ = _
    from hbuf] at hone
  revert hone
  decide +kernel

/-- If the power fails in the second bucket, the third flag is used. -/
theorem circular_crash_atomic_flag :
    CrashAtomic (backendFormatRawVerify 1 false) (backendFormatRawCreate none) .ok
      (bucketsAfterSave { faults := [.done, .powerLoss 8] } [flagBucket, flagBucket] (flagPayload 2))
      ((flagPayload 1).take 17) ((flagPayload 2).take 17) := by
  have hpow : Env.PowerOnly { faults := [.done, .powerLoss 8] } := by
    intro f hf
    simp only [List.mem_cons, List.not_mem_nil, or_false] at hf
    rcases hf with rfl | rfl
    · exact .inl rfl
    · exact .inr ⟨8, rfl⟩
  have hauth : effectiveAuth false none = .ok none := rfl
  refine (circular_crash_atomic_iff hauth (flagPayload_packed 1) (flagPayload_packed 2) ?_ rfl hpow .ok).2 ?_
  · simpa using flagBucket_lastSaved
  · rintro c ⟨rfl⟩ k ⟨-, -, hk⟩
    -- The record does not reach the end of the block, and is written completely.
    rw [if_neg (by decide +kernel)] at hk
    cases hk

end DtUtils
