/-
The two bucket types as drivers of the storage, and the buckets a new process
opens on what the one before it left: what they deliver (`Bucket.content`)
and what they hold after a write that succeeds (`Bucket.written`).
-/
import DtUtils.CircularFacts
import DtUtils.Direct
import DtUtils.StorageFacts

namespace DtUtils
open Lib

/-- The `read` and `write` of a direct bucket. -/
def directDriver : Driver BucketDirect where
  read := bucketDirectRead
  write := bucketDirectWrite

/-- A direct bucket that a new process creates on the file of `d`. -/
def BucketDirect.reopen (d : BucketDirect) : BucketDirect :=
  bucketDirectCreate (.ofNat d.maxSize) d.compat d.readonly d.area

theorem BucketDirect.reopen_sameFile (d : BucketDirect) : d.SameFile d.reopen :=
  ⟨rfl, UInt32.toNat_ofNat_of_lt' d.maxSize_lt, rfl, rfl⟩

/-- The `read` and `write` of a circular bucket; a read that fails sets
neither `*buf_out` nor `*len_out`. -/
def circularDriver : Driver BucketCircular where
  read env c :=
    let (env, c, ret, buf, len) := bucketCircularRead env c
    (env, c, ret, if ret < 0 ∧ ret ≠ -EUCLEAN then none else some (buf, len))
  write := bucketCircularWrite

/-- A bucket of a storage. -/
inductive Bucket
  | direct (d : BucketDirect)
  | circular (c : BucketCircular)

def bucketDriver : Driver Bucket where
  read env
    | .direct d =>
      let (env, d, ret, out) := directDriver.read env d
      (env, .direct d, ret, out)
    | .circular c =>
      let (env, c, ret, out) := circularDriver.read env c
      (env, .circular c, ret, out)
  write env b buf :=
    match b with
    | .direct d =>
      let (env, d, ret) := directDriver.write env d buf
      (env, .direct d, ret)
    | .circular c =>
      let (env, c, ret) := circularDriver.write env c buf
      (env, .circular c, ret)

/-- A new process creates a bucket where `b` was. -/
def bucketReopen (env : Env) : Bucket → Env × Option Bucket
  | .direct d => (env, some (.direct d.reopen))
  | .circular c =>
    let (env, c) := bucketCircularCreate env c.geo c.block
    (env, c.map .circular)

/-- A new process creates its buckets; those that cannot be opened are left
out. -/
def openBuckets (env : Env) (bs : List Bucket) : Env × List Bucket :=
  let (env, opened) := sweep bucketReopen env bs
  (env, opened.filterMap id)

/-! ## What a bucket holds -/

/-- The bytes a bucket is to deliver to the next process. -/
def Bucket.content : Bucket → Option Bytes
  | .direct d => directPayload d
  | .circular c => circularPayload c.geo c.block

/-- What a process can rely on of a bucket's medium and the setup: the file is
writable and, in a backward compatible build, not shorter than the metadata;
the device holds the whole eraseblock, with a length that fits an `int`. -/
def Bucket.Fit : Bucket → Prop
  | .direct d => d.readonly = false ∧ (d.compat = false ∨ 8 ≤ d.area.length)
  | .circular c => c.block.length = c.geo.erasesize ∧ c.geo.erasesize < 2 ^ 31

/-- Two buckets of one storage: direct ones have the same stride. -/
def Bucket.Alike : Bucket → Bucket → Prop
  | .direct d, .direct d' => d.maxSize = d'.maxSize
  | .circular _, .circular _ => True
  | _, _ => False

/-- The zeros a bucket adds to a payload of `n` bytes. -/
def BucketCircular.padding (c : BucketCircular) (n : Nat) : Nat := roundup (n + 8) c.geo.writesize - 8 - n

/-- What a bucket holds once `p` was written to it: `p` itself, or `p` and
zeros up to the metadata, or (in a backward compatible build, when there is no
room for metadata) what the file then begins with. -/
def Bucket.written (p : Bytes) : Bucket → Option Bytes
  | .direct d => if d.headRoom p.length then some p else directPayload { d with area := splice 0 p d.area }
  | .circular c => some (p ++ List.replicate (c.padding p.length) 0)

/-- Nothing but zeros. -/
def Blank (x : Fetch) : Prop := ∀ p u, x = some (p, u) → ∀ b ∈ p, b = 0

/-- What a read comes to, by what the bucket holds. -/
inductive Delivered : Option Bytes → Fetch → Prop
  | data (p : Bytes) : Delivered (some p) (some (p, false))
  | blank {x : Fetch} : Blank x → Delivered none x

/-- Between the buckets of a process and those the next one opens: the medium
is the same. -/
inductive Bucket.SameMedium : Bucket → Bucket → Prop
  | direct {d d' : BucketDirect} : d.SameFile d' → SameMedium (.direct d) (.direct d')
  | circular {c c' : BucketCircular} : c'.geo = c.geo → c'.block = c.block → Ready c' →
      SameMedium (.circular c) (.circular c')

theorem Bucket.Alike.symm {b b' : Bucket} (h : b.Alike b') : b'.Alike b := by
  cases b <;> cases b' <;> first | exact Eq.symm h | exact h

theorem Bucket.Alike.trans {a b c : Bucket} (h : a.Alike b) (h' : b.Alike c) : a.Alike c := by
  cases a <;> cases b <;> cases c <;> first | exact Eq.trans h h' | exact h.elim | exact h'.elim | trivial

theorem Bucket.SameMedium.content {b b' : Bucket} (h : b.SameMedium b') : b'.content = b.content := by
  cases h with
  | direct h => exact h.payload
  | circular hg hb => simp only [Bucket.content, hg, hb]

theorem Bucket.SameMedium.fit {b b' : Bucket} (h : b.SameMedium b') (hf : b.Fit) : b'.Fit := by
  cases h with
  | direct h =>
    obtain ⟨hro, hc⟩ := hf
    exact ⟨h.readonly.trans hro, by rw [h.compat, h.area]; exact hc⟩
  | circular hg hb =>
    obtain ⟨hl, hi⟩ := hf
    exact ⟨by rw [hb, hg]; exact hl, by rw [hg]; exact hi⟩

theorem Bucket.SameMedium.alike {b b' : Bucket} (h : b.SameMedium b') : b.Alike b' := by
  cases h with
  | direct h => exact h.maxSize.symm
  | circular => trivial

theorem Bucket.SameMedium.written {b b' : Bucket} (h : b.SameMedium b') (p : Bytes) : b'.written p = b.written p := by
  cases h with
  | direct h =>
    simp only [Bucket.written, BucketDirect.headRoom, h.maxSize, directPayload, BucketDirect.filled, h.compat, h.area]
  | circular hg hb => simp only [Bucket.written, BucketCircular.padding, hg]

/-- A bucket that a process has just opened. -/
inductive Bucket.Opened : Bucket → Prop
  | direct {d : BucketDirect} : Opened (.direct d)
  | circular {c : BucketCircular} : Ready c → c.readable = circularPayload c.geo c.block → Opened (.circular c)

theorem Bucket.Opened.refl {b : Bucket} (h : b.Opened) : b.SameMedium b := by
  cases h with
  | direct => exact .direct (.refl _)
  | circular hc => exact .circular rfl rfl hc

/-! ## A device without faults -/

section
variable {env : Env}

theorem bucketReopen_clean (henv : env.Clean) {b : Bucket} (hb : b.Fit) :
    ∃ env' b', bucketReopen env b = (env', some b') ∧ env'.Clean ∧ b'.Opened ∧ b.SameMedium b' := by
  cases b with
  | direct d => exact ⟨env, _, rfl, henv, .direct, .direct d.reopen_sameFile⟩
  | circular c =>
    obtain ⟨hl, hint⟩ := hb
    have h := bucketCircularCreate_clean henv hint hl
    have hready : Ready (BucketCircular.scanned ⟨c.geo, 0, 0, false, c.block⟩ c.block) :=
      Ready.scanned (c := ⟨c.geo, 0, 0, false, c.block⟩) hint hl
    simp only [bucketReopen, h, Option.map_some]
    exact ⟨_, _, rfl, (henv.pop.log _).pop, .circular hready rfl, .circular rfl rfl hready⟩

theorem openBuckets_clean (henv : env.Clean) {bs : List Bucket} (hb : ∀ b ∈ bs, b.Fit) :
    ∃ env' bs', openBuckets env bs = (env', bs') ∧ env'.Clean ∧
      List.Forall₂ (fun b b' => b'.Opened ∧ b.SameMedium b') bs bs' := by
  induction bs generalizing env with
  | nil => exact ⟨env, [], rfl, henv, .nil⟩
  | cons b bs ih =>
    obtain ⟨env₁, b', hr, henv₁, hopen, hsame⟩ := bucketReopen_clean henv (hb b (by simp))
    obtain ⟨env₂, bs', ho, henv₂, hall⟩ := ih henv₁ (fun b h => hb b (by simp [h]))
    simp only [openBuckets] at ho ⊢
    rw [sweep_cons, hr]
    obtain ⟨rfl, rfl⟩ := Prod.mk.inj ho
    exact ⟨_, _, rfl, henv₂, .cons ⟨hopen, hsame⟩ hall⟩

theorem BucketDirect.Delivers.fetch {d : BucketDirect} {ret : Int} {out : Option (Bytes × Int)}
    (h : d.Delivers ret out) :
    ∃ x : Fetch, x.Of ret out ∧ Delivered (directPayload d) x := by
  cases h with
  | @payload p hp => exact ⟨some (p, false), ⟨rfl, .inr ⟨p, rfl, by simp⟩⟩, hp ▸ .data p⟩
  | error hp hne =>
    by_cases hu : ret = -EUCLEAN
    · exact ⟨some ([], true), ⟨hu, .inl ⟨rfl, rfl, rfl⟩⟩, hp ▸ .blank (by simp [Blank])⟩
    · exact ⟨none, ⟨hne, hu, rfl⟩, hp ▸ .blank (by simp [Blank])⟩
  | zeros n hp =>
    refine ⟨some (List.replicate n 0, false), ⟨rfl, .inr ⟨List.replicate n 0, by simp, by simp⟩⟩, hp ▸ .blank ?_⟩
    rintro p u ⟨⟩ b hb
    exact (List.mem_replicate.1 hb).2

/-- A read delivers the content and leaves the medium as it is. -/
theorem bucketRead_clean (henv : env.Clean) {b : Bucket} (hb : b.Fit) (ho : b.Opened) :
    (bucketDriver.read env b).1.Clean ∧ b.SameMedium (bucketDriver.read env b).2.1 ∧
      ∃ x : Fetch, x.Of (bucketDriver.read env b).2.2.1 (bucketDriver.read env b).2.2.2 ∧ Delivered b.content x := by
  cases ho with
  | @direct d =>
    obtain ⟨env', d', ret, out, hr, hfol, hsame, hdel⟩ := bucketDirectRead_power henv.powerOnly hb.2
    have hclean := hfol.clean henv
    simp only [bucketDriver, directDriver, hr]
    exact ⟨hclean, .direct hsame, (hdel hclean.1).fetch⟩
  | @circular c hready hpay =>
    obtain ⟨env', c', ret, buf, len, henv', hr, hres⟩ := bucketCircularRead_clean henv hready
    obtain ⟨hready', hblock, hgeo⟩ := bucketCircularRead_ready hready hr
    simp only [bucketDriver, circularDriver, hr]
    refine ⟨henv', .circular hgeo hblock hready', ?_⟩
    simp only [Bucket.content, ← hpay]
    cases hread : c.readable with
    | none =>
      rw [hread] at hres
      obtain ⟨hneg, rfl, rfl⟩ := hres
      by_cases hu : ret = -EUCLEAN
      · refine ⟨some ([], true), ⟨hu, .inr ⟨[], by simp [hu], rfl⟩⟩, .blank (by simp [Blank])⟩
      · exact ⟨none, ⟨by omega, hu, by simp [hneg, hu]⟩, .blank (by simp [Blank])⟩
    | some p =>
      rw [hread] at hres
      obtain ⟨rfl, hbuf, rfl⟩ := hres
      exact ⟨some (p, false), ⟨rfl, .inr ⟨buf, by simp, hbuf⟩⟩, .data p⟩

/-- A write that succeeds leaves what `written` says; the bucket fits on in
any case. -/
theorem bucketWrite_clean (henv : env.Clean) {b b' : Bucket} (hb : b.Fit) (hs : b.SameMedium b') {p : Bytes}
    (hp : p.length < 2 ^ 30) :
    (bucketDriver.write env b' p).1.Clean ∧ (bucketDriver.write env b' p).2.1.Fit ∧
      b.Alike (bucketDriver.write env b' p).2.1 ∧
      ((bucketDriver.write env b' p).2.2 = 0 → (∀ d, b = .direct d → p.length ≤ d.maxSize) →
        (bucketDriver.write env b' p).2.1.content = b.written p) := by
  cases hs with
  | @direct d d' hs =>
    obtain ⟨hro, hcompat⟩ := hb
    obtain ⟨env', ret, k, hw, hfol, hok, -⟩ := bucketDirectWrite_power henv.powerOnly (hs.readonly.trans hro) p
    have hgrow : ∀ x : Bytes, d'.area.length ≤ (splice 0 x d'.area).length := fun x => by
      simp only [splice, List.take_zero, List.nil_append, List.length_append, List.length_drop]
      omega
    have hwritten := Bucket.SameMedium.written (.direct hs) p
    simp only [bucketDriver, directDriver, hw]
    refine ⟨hfol.clean henv, ⟨hs.readonly.trans hro, ?_⟩, hs.maxSize.symm, fun h0 hfit => ?_⟩
    · rcases hcompat with hc | h8
      · exact .inl (hs.compat.trans hc)
      · have := hgrow ((d'.image p).take k)
        rw [← hs.area] at h8
        exact .inr (by simp only; omega)
    · obtain ⟨rfl, -, -⟩ := hok h0
      rw [← hwritten, List.take_length]
      simp only [Bucket.content, Bucket.written, BucketDirect.image]
      by_cases hroom : d'.headRoom p.length
      · rw [if_pos hroom, if_pos hroom]
        exact directPayload_record (show _ = _ ++ d'.area.drop (directRecord p).length by simp [splice])
          (hs.maxSize ▸ hfit d rfl) (by omega)
      · rw [if_neg hroom, if_neg hroom]
  | @circular c c' hgeo hblock hready =>
    obtain ⟨hl, hint⟩ := hb
    simp only [bucketDriver, circularDriver]
    by_cases hfit : roundup (p.length + 8) c'.geo.writesize ≤ c'.geo.erasesize
    · obtain ⟨env', b, t, henv', hroom, hw⟩ := bucketCircularWrite_clean henv hready hfit
      obtain ⟨hgeo', -⟩ := hroom.same
      have hst := Stored.append (b := b) (p := p) (by rw [hgeo']) (hroom.hasRoom hready)
      rw [hgeo'] at hst
      simp only [hw]
      refine ⟨henv', ⟨?_, ?_⟩, trivial, fun _ _ => ?_⟩
      · exact hst.length.trans (by rw [BucketCircular.append, hgeo'])
      · simp only [BucketCircular.append, hgeo', hgeo, hint]
      · simp only [Bucket.content, Bucket.written, BucketCircular.padding]
        rw [show (b.append _ _).geo = c'.geo from hgeo', ← hgeo]
        exact hst.payload
    · -- The record would not fit the block.
      have hlt := roundup_lt (x := p.length + 8) c'.geo.writesize_pos
      have hws := c'.geo.writesize_le
      have hn : circularWrittenLength c'.geo p.length = roundup (p.length + 8) c'.geo.writesize := by
        rw [circularWrittenLength, circularMetaSize, Nat.mod_eq_of_lt]
        rw [hgeo] at hws hlt ⊢
        omega
      have hw : bucketCircularWrite env c' p = (env, c', -E2BIG) := by
        simp only [bucketCircularWrite, hn]
        rw [if_pos (by omega)]
      simp only [hw]
      exact ⟨henv, ⟨by rw [hblock, hgeo]; exact hl, by rw [hgeo]; exact hint⟩, trivial, fun h0 => by
        simp [E2BIG] at h0⟩

end

end DtUtils
