/-
What the repair inside a load is worth. A load rewrites the buckets that differ
from the data in use with those data, as verify reports them: header and data,
without the HMAC. Afterwards all buckets are copies again exactly if every
bucket that was not one of them already can do without an HMAC
(`repair_redundant_iff`).
-/
import DtUtils.Buckets
import DtUtils.DirectRuns

namespace DtUtils
open Lib

section
variable {F : Type} (verify : Verify F) (format : F)

/-- A new process opens the buckets and loads the state. -/
def loadBuckets (env : Env) (bs : List Bucket) : ReadOutcome Bucket F :=
  let (env, opened) := openBuckets env bs
  stateStorageRead bucketDriver verify env format (.fresh false opened)

/-- A new process that reads this bucket alone verifies it and gets `data`. -/
def ReadsAs (data : Bytes) (b : Bucket) : Prop :=
  ∀ env : Env, env.Clean → ∃ env₁ b₁ env₂ b₂ buf len f len', bucketReopen env b = (env₁, some b₁) ∧
    bucketDriver.read env₁ b₁ = (env₂, b₂, 0, some (buf, len)) ∧ verify format buf len = some (f, 0, len') ∧
    buf.take len'.toNat = data

/-- After the load `r` every bucket is a copy of the one that was used, and
another load uses the same data and writes nothing. -/
def Redundant (r : ReadOutcome Bucket F) : Prop :=
  (∀ b ∈ r.storage.buckets, ReadsAs verify format (r.buf.take r.len.toNat) b.priv) ∧
  ∀ env : Env, env.Clean →
    (loadBuckets verify format env (r.storage.buckets.map fun b => b.priv)).ret = 0 ∧
    (loadBuckets verify format env (r.storage.buckets.map fun b => b.priv)).buf.take
      (loadBuckets verify format env (r.storage.buckets.map fun b => b.priv)).len.toNat = r.buf.take r.len.toNat ∧
    ∀ x ∈ (loadBuckets verify format env (r.storage.buckets.map fun b => b.priv)).repairs, x = none

end

/-- The bytes are accepted, and `data` are passed on. -/
def Carries (check : Bytes → Int × Int) (data : Bytes) (x : Option Bytes) : Prop :=
  ∃ p, x = some p ∧ (check p).1 = 0 ∧ passedOn check p = data

/-- A bucket's content differs from the data in use. -/
def Bucket.Differs (check : Bytes → Int × Int) (data : Bytes) (b : Bucket) : Prop :=
  differs check data (b.content.map (·, false))

/-- Zeros are not a packed payload, and no payload is zeros only or very long. -/
structure Strict (check : Bytes → Int × Int) : Prop where
  blank : ∀ p : Bytes, (∀ b ∈ p, b = 0) → (check p).1 ≠ 0
  data : ∀ p, (check p).1 = 0 → (∃ b ∈ passedOn check p, b ≠ 0) ∧ (passedOn check p).length < 2 ^ 30

/-- What a load made of a bucket. -/
inductive RepairOf (check : Bytes → Int × Int) (data : Bytes) (b : Bucket) : Mend Bucket → Prop
  | same {c x b'} : ¬ b.Differs check data → b'.Fit → b.Alike b' → b'.content = b.content →
      RepairOf check data b ⟨c, x, b', none⟩
  | rewritten {c x b' ret} : b.Differs check data → b'.Fit → b.Alike b' → (ret = 0 → b'.content = b.written data) →
      RepairOf check data b ⟨c, x, b', some ret⟩

section
variable {F : Type} {verify : Verify F} {P : F → Prop} {check : Bytes → Int × Int} {format : F}

theorem Carries.not_differs (hj : Judges verify P check) {data : Bytes} {b : Bucket}
    (h : Carries check data b.content) :
    ¬ b.Differs check data := by
  obtain ⟨p, hp, -, rfl⟩ := h
  have h0 := hj.len_nonneg p
  have hle := hj.len_le p
  have hl : (passedOn check p).length = (check p).2.toNat := by
    rw [passedOn, List.length_take]
    omega
  simp only [Bucket.Differs, hp, Option.map_some, differs, Bool.false_eq_true, ne_eq, false_or, not_or, not_not]
  exact ⟨by omega, by rw [hl, passedOn]⟩

/-- What a bucket delivers differs from the data in use if its content does. -/
theorem Delivered.differs_iff {data : Bytes} (hdata : ∃ b ∈ data, b ≠ 0) {b : Bucket} {x : Fetch}
    (h : Delivered b.content x) : differs check data x ↔ b.Differs check data := by
  unfold Bucket.Differs
  cases hb : b.content with
  | some p =>
    rw [hb] at h
    cases h
    rfl
  | none =>
    rw [hb] at h
    obtain ⟨c, hc, hc0⟩ := hdata
    have hne : data ≠ [] := List.ne_nil_of_mem hc
    cases h with
    | blank hx =>
      refine iff_of_true ?_ hne
      cases x with
      | none => exact hne
      | some x =>
        obtain ⟨p, u⟩ := x
        refine .inr (.inr fun h => hc0 ?_)
        rw [← h] at hc
        exact hx p u rfl c (List.mem_of_mem_take hc)

/-- The bytes in use are the first content that verifies. -/
theorem chosen_delivered (hs : Strict check) {bs : List Bucket} {xs : List Fetch}
    (h : List.Forall₂ (fun b x => Delivered b.content x) bs xs) :
    chosen check xs = firstVerified check (bs.filterMap Bucket.content) := by
  induction h with
  | nil => rfl
  | @cons b x bs xs hx _ ih =>
    cases hb : b.content with
    | some p =>
      rw [hb] at hx
      cases hx
      rw [List.filterMap_cons_some hb, chosen]
      by_cases hv : (check p).1 = 0
      · rw [if_pos hv, firstVerified_pos hv]
      · rw [if_neg hv, firstVerified_neg hv, ih]
    | none =>
      rw [hb] at hx
      rw [List.filterMap_cons_none hb, ← ih]
      cases hx with
      | blank hx =>
        cases x with
        | none => rfl
        | some x =>
          obtain ⟨p, u⟩ := x
          rw [chosen, if_neg (hs.blank p (hx p u rfl))]

theorem Bucket.content_length {d : BucketDirect} {p : Bytes} (h : (Bucket.direct d).content = some p) :
    p.length ≤ d.maxSize := by
  have hfill : ∀ {pos len : Nat}, d.filled pos len = some p → p.length = len := by
    intro pos len hf
    have hle := slice_length_le pos len d.area
    by_cases hneg : cInt (slice pos len d.area).length < 0
    · rw [BucketDirect.filled_eq_none hneg] at hf
      cases hf
    · rw [BucketDirect.filled_eq_some (by omega), Option.some.injEq] at hf
      rw [← hf, List.length_append, List.length_replicate]
      omega
  simp only [Bucket.content, directPayload] at h
  split at h
  · cases h
  split at h
  · split at h
    · have := hfill h; omega
    · cases h
  split at h
  · exact (hfill h).le
  · cases h

theorem RepairOf.sameMedium {data : Bytes} {b b' : Bucket} {m : Mend Bucket} (hs : b.SameMedium b')
    (h : RepairOf check data b' m) : RepairOf check data b m := by
  have hd : b'.Differs check data ↔ b.Differs check data := by rw [Bucket.Differs, hs.content]; rfl
  cases h with
  | same hn hf ha hc => exact .same (fun h => hn (hd.2 h)) hf (hs.alike.trans ha) (hc.trans hs.content)
  | rewritten hn hf ha hc => exact .rewritten (hd.1 hn) hf (hs.alike.trans ha) fun h0 => (hc h0).trans (hs.written data)

/-- What a load makes of each bucket, and what it returns. -/
structure Mends (check : Bytes → Int × Int) (bs : List Bucket) (sel : Bytes) (r : ReadOutcome Bucket F) : Prop where
  ret : r.ret = 0
  data : r.buf.take r.len.toNat = passedOn check sel
  buckets : ∃ ms, List.Forall₂ (RepairOf check (passedOn check sel)) bs ms ∧
    r.storage.buckets.map (fun b => b.priv) = ms.map Mend.result ∧ r.repairs = ms.map Mend.repair

/-- A load from buckets that were just opened. -/
theorem stateStorageRead_clean (hj : Judges verify P check) (hs : Strict check) (hf : P format) {env : Env}
    (henv : env.Clean) {bs : List Bucket} (hb : ∀ b ∈ bs, b.Fit ∧ b.Opened)
    (halike : ∀ b ∈ bs, ∀ b' ∈ bs, b.Alike b') :
    match firstVerified check (bs.filterMap Bucket.content) with
    | none => (stateStorageRead bucketDriver verify env format (.fresh false bs)).ret = -ENOENT
    | some sel => Mends check bs sel (stateStorageRead bucketDriver verify env format (.fresh false bs)) := by
  let L : Bucket → Fetch → Bucket → Prop := fun b x b' => b.Fit ∧ Delivered b.content x ∧ b.SameMedium b'
  have hread : ∀ env, ∀ b ∈ bs, env.Clean → (bucketDriver.read env b).1.Clean ∧
      ∃ x : Fetch, x.Of (bucketDriver.read env b).2.2.1 (bucketDriver.read env b).2.2.2 ∧
        L b x (bucketDriver.read env b).2.1 := by
    intro env b hbmem henv
    obtain ⟨hfit, hopen⟩ := hb b hbmem
    obtain ⟨h1, h2, x, hx, hdel⟩ := bucketRead_clean henv hfit hopen
    exact ⟨h1, x, hx, hfit, hdel, h2⟩
  have hwrite : ∀ p, (check p).1 = 0 → (∃ b ∈ bs, ∃ u b', L b (some (p, u)) b') → ∀ env b x b', env.Clean →
      L b x b' → (bucketDriver.write env b' (passedOn check p)).1.Clean :=
    fun p hp _ env b x b' henv hL => (bucketWrite_clean henv hL.1 hL.2.2 (hs.data p hp).2).1
  obtain ⟨-, -, hload⟩ := stateStorageRead_loaded hj (fun _ h => h.1) hread hwrite henv hf false
  cases hload with
  | none ms hms hL hc hret =>
    have hdel : List.Forall₂ (fun b x => Delivered b.content x) bs (ms.map fun m => m.2.1) := by
      rw [hms]
      exact List.forall₂_map_left_iff.2 (List.forall₂_map_right_iff.2 (List.forall₂_same.2 fun m hm => (hL m hm).2.1))
    rw [← chosen_delivered hs hdel, hc]
    exact hret
  | some ms p hms hc hm hret hbuf _ hpriv hrep =>
    have hLm : ∀ m ∈ ms, m.bucket.Fit ∧ Delivered m.bucket.content m.fetch := by
      intro m hmem
      cases hm m hmem with
      | same h => exact ⟨h.1, h.2.1⟩
      | rewritten h => exact ⟨h.1, h.2.1⟩
    have hdel : List.Forall₂ (fun b x => Delivered b.content x) bs (ms.map Mend.fetch) := by
      rw [hms]
      exact List.forall₂_map_left_iff.2 (List.forall₂_map_right_iff.2 (List.forall₂_same.2 fun m hm => (hLm m hm).2))
    have hfirst := chosen_delivered hs hdel
    rw [hc] at hfirst
    rw [← hfirst]
    have hv : (check p).1 = 0 := by
      have := List.find?_some hfirst.symm
      simpa using this
    obtain ⟨hdata, hlen⟩ := hs.data p hv
    refine ⟨hret, hbuf, ms, ?_, hpriv, hrep⟩
    -- The data fit a direct bucket's stride, having come out of one like it.
    have hstride : ∀ b ∈ bs, ∀ d, b = .direct d → (passedOn check p).length ≤ d.maxSize := by
      rintro b hbmem d rfl
      have hp : p ∈ bs.filterMap Bucket.content := List.mem_of_find?_eq_some hfirst.symm
      obtain ⟨b', hb', hcont⟩ := List.mem_filterMap.1 hp
      have hal := halike _ hbmem b' hb'
      cases b' with
      | circular c => exact hal.elim
      | direct d' =>
        have hle := Bucket.content_length hcont
        have hpl : (passedOn check p).length ≤ p.length := List.length_take_le' _ _
        rw [← show d.maxSize = d'.maxSize from hal] at hle
        omega
    rw [hms]
    refine List.forall₂_map_left_iff.2 (List.forall₂_same.2 fun m hmem => ?_)
    have hmb : m.bucket ∈ bs := hms ▸ List.mem_map_of_mem hmem
    have hdiff : differs check (passedOn check p) m.fetch ↔ m.bucket.Differs check (passedOn check p) :=
      (hLm m hmem).2.differs_iff hdata
    cases hm m hmem with
    | same h hn => exact .same (fun h => hn (hdiff.2 h)) (h.2.2.fit h.1) h.2.2.alike h.2.2.content
    | rewritten h hn henv' =>
      obtain ⟨-, hfit', halike', hcont⟩ := bucketWrite_clean henv' h.1 h.2.2 hlen
      exact .rewritten (hdiff.1 hn) hfit' halike' fun h0 => hcont h0 (hstride _ hmb)

theorem loadBuckets_clean (hj : Judges verify P check) (hs : Strict check) (hf : P format) {env : Env}
    (henv : env.Clean) {bs : List Bucket} (hfit : ∀ b ∈ bs, b.Fit) (halike : ∀ b ∈ bs, ∀ b' ∈ bs, b.Alike b') :
    match firstVerified check (bs.filterMap Bucket.content) with
    | none => (loadBuckets verify format env bs).ret = -ENOENT
    | some sel => Mends check bs sel (loadBuckets verify format env bs) := by
  obtain ⟨env₁, opened, ho, henv₁, hall⟩ := openBuckets_clean henv hfit
  have hb : ∀ b ∈ opened, b.Opened ∧ ∃ b₀ ∈ bs, b₀.SameMedium b := by
    intro b hmem
    obtain ⟨i, hi, rfl⟩ := List.getElem_of_mem hmem
    have hi' : i < bs.length := hall.length_eq ▸ hi
    obtain ⟨h1, h2⟩ := hall.get hi' hi
    exact ⟨h1, bs.get ⟨i, hi'⟩, List.get_mem _ _, h2⟩
  have hcontent : opened.filterMap Bucket.content = bs.filterMap Bucket.content := by
    clear ho hb
    induction hall with
    | nil => rfl
    | cons h _ ih =>
      rw [List.filterMap_cons, List.filterMap_cons, h.2.content,
          ih (fun b hb => hfit b (by simp [hb])) fun b hb b' hb' =>
        halike b (by simp [hb]) b' (by simp [hb'])]
  have hopened : ∀ b ∈ opened, b.Fit ∧ b.Opened := by
    intro b hmem
    obtain ⟨h1, b₀, h2, h3⟩ := hb b hmem
    exact ⟨h3.fit (hfit b₀ h2), h1⟩
  have hopenedAlike : ∀ b ∈ opened, ∀ b' ∈ opened, b.Alike b' := by
    intro b hmem b' hmem'
    obtain ⟨-, b₀, h2, h3⟩ := hb b hmem
    obtain ⟨-, b₁, h4, h5⟩ := hb b' hmem'
    exact (h3.alike.symm.trans (halike _ h2 _ h4)).trans h5.alike
  have hload := stateStorageRead_clean hj hs hf henv₁ hopened hopenedAlike
  rw [hcontent] at hload
  simp only [loadBuckets, ho]
  cases hfv : firstVerified check (bs.filterMap Bucket.content) with
  | none =>
    rw [hfv] at hload
    exact hload
  | some sel =>
    rw [hfv] at hload
    obtain ⟨hret, hdata, ms, hms, hpriv, hrep⟩ := hload
    exact ⟨hret, hdata, ms, forall₂_chain (fun b b' m h hm => hm.sameMedium h.2) hall hms, hpriv, hrep⟩

/-- A bucket is read as `data` exactly if it carries them. -/
theorem readsAs_iff (hj : Judges verify P check) (hs : Strict check) (hf : P format) {data : Bytes} {b : Bucket}
    (hb : b.Fit) : ReadsAs verify format data b ↔ Carries check data b.content := by
  -- What any process makes of the bucket.
  have hread : ∀ env : Env, env.Clean → ∃ env₁ b₁, bucketReopen env b = (env₁, some b₁) ∧
      ∃ x : Fetch, x.Of (bucketDriver.read env₁ b₁).2.2.1 (bucketDriver.read env₁ b₁).2.2.2 ∧
          Delivered b.content x := by
    intro env henv
    obtain ⟨env₁, b₁, hr, henv₁, hopen, hsame⟩ := bucketReopen_clean henv hb
    obtain ⟨-, -, x, hx, hdel⟩ := bucketRead_clean henv₁ (hsame.fit hb) hopen
    exact ⟨env₁, b₁, hr, x, hx, hsame.content ▸ hdel⟩
  have hjudge : ∀ {p buf : Bytes}, buf.take p.length = p → ∃ f, verify format buf p.length = some (f, check p) := by
    intro p buf hbuf
    have hle : p.length ≤ buf.length := by
      rw [← hbuf, List.length_take]
      omega
    obtain ⟨f, -, hv⟩ := hj.judge format buf p.length hf hle
    exact ⟨f, by rw [hv, hbuf]⟩
  constructor
  · intro h
    obtain ⟨env₁, b₁, env₂, b₂, buf, len, f, len', hr, hrd, hv, hd⟩ := h .ok .ok
    obtain ⟨env₁', b₁', hr', x, hx, hdel⟩ := hread .ok .ok
    rw [hr] at hr'
    cases hr'
    rw [hrd] at hx
    cases x with
    | none => exact absurd rfl hx.1
    | some x =>
      obtain ⟨p, u⟩ := x
      obtain ⟨-, ⟨hn, -⟩ | ⟨buf', hout, hbuf⟩⟩ := hx
      · cases hn
      cases hout
      obtain ⟨f', hv'⟩ := hjudge hbuf
      rw [hv'] at hv
      simp only [Option.some.injEq, Prod.mk.injEq] at hv
      have hok : (check p).1 = 0 := congrArg Prod.fst hv.2
      have hlen : (check p).2 = len' := congrArg Prod.snd hv.2
      generalize hc : b.content = c at hdel
      cases hdel with
      | data =>
        refine ⟨p, rfl, hok, ?_⟩
        have hle := hj.len_le p
        rw [← hd, ← hlen, passedOn, take_of_take_eq hbuf (by omega)]
      | blank hblank => exact absurd hok (hs.blank p (hblank p u rfl))
  · rintro ⟨p, hp, hok, rfl⟩ env henv
    obtain ⟨env₁, b₁, hr, x, hx, hdel⟩ := hread env henv
    rw [hp] at hdel
    cases hdel
    rcases hrd : bucketDriver.read env₁ b₁ with ⟨env₂, b₂, ret, out⟩
    rw [hrd] at hx
    obtain ⟨rfl, ⟨-, -, hfalse⟩ | ⟨buf, rfl, hbuf⟩⟩ := hx
    · cases hfalse
    obtain ⟨f, hv⟩ := hjudge hbuf
    have hle := hj.len_le p
    exact ⟨env₁, b₁, env₂, b₂, buf, _, f, (check p).2, hr, hrd, by rw [hv, ← hok], by
      rw [passedOn, take_of_take_eq hbuf (by omega)]⟩

/-- If every bucket carries `data`, the first one is used. -/
theorem firstVerified_carries {data : Bytes} {bs : List Bucket} (hne : bs ≠ [])
    (h : ∀ b ∈ bs, Carries check data b.content) :
    ∃ sel, firstVerified check (bs.filterMap Bucket.content) = some sel ∧ passedOn check sel = data := by
  cases bs with
  | nil => exact absurd rfl hne
  | cons b bs =>
    obtain ⟨p, hp, hok, hd⟩ := h b (by simp)
    exact ⟨p, by rw [List.filterMap_cons_some hp, firstVerified_pos hok], hd⟩

/-- A bucket whose rewrite, if there was one, succeeded carries the data in use
exactly if it did before, or differed and carries what was written. -/
theorem RepairOf.carries_iff (hj : Judges verify P check) {data : Bytes} {b : Bucket} {m : Mend Bucket}
    (h : RepairOf check data b m) (hok : m.repair = none ∨ m.repair = some 0) :
    Carries check data m.result.content ↔
      Carries check data b.content ∨ b.Differs check data ∧ Carries check data (b.written data) := by
  cases h with
  | same hn _ _ hc =>
    rw [hc]
    exact ⟨.inl, fun h => h.resolve_right fun h => hn h.1⟩
  | rewritten hd _ _ hc =>
    rcases hok with hok | hok
    · cases hok
    cases hok
    rw [hc rfl]
    exact ⟨fun h => .inr ⟨hd, h⟩, fun h => (h.resolve_left fun h => h.not_differs hj hd).2⟩

/-- After a load all of whose writes succeeded the buckets are copies of each
other exactly if each of them was one already, or differs and can hold the
data in use on their own. -/
theorem redundant_iff (hj : Judges verify P check) (hs : Strict check) (hf : P format) {bs : List Bucket}
    {sel : Bytes} {r : ReadOutcome Bucket F} (hr : Mends check bs sel r) (hne : bs ≠ [])
    (halike : ∀ b ∈ bs, ∀ b' ∈ bs, b.Alike b') (hok : ∀ x ∈ r.repairs, x = none ∨ x = some 0) :
    Redundant verify format r ↔ ∀ b ∈ bs, Carries check (passedOn check sel) b.content ∨
      b.Differs check (passedOn check sel) ∧ Carries check (passedOn check sel) (b.written (passedOn check sel)) := by
  obtain ⟨hret, hdata, ms, hms, hpriv, hrep⟩ := hr
  generalize passedOn check sel = data at *
  -- Each bucket afterwards, and the one it was made of.
  have hpairs : ∀ m ∈ ms, ∃ b ∈ bs, RepairOf check data b m := by
    intro m hm
    obtain ⟨i, hi, rfl⟩ := List.getElem_of_mem hm
    have hi' : i < bs.length := hms.length_eq ▸ hi
    exact ⟨bs.get ⟨i, hi'⟩, List.get_mem _ _, hms.get hi' hi⟩
  have hrepair : ∀ m ∈ ms, m.repair = none ∨ m.repair = some 0 := fun m hm =>
    hok _ (hrep ▸ List.mem_map_of_mem hm)
  have hfit : ∀ m ∈ ms, m.result.Fit ∧ ∃ b ∈ bs, b.Alike m.result := by
    intro m hm
    obtain ⟨b, hb, h⟩ := hpairs m hm
    cases h with
    | same _ hf ha => exact ⟨hf, b, hb, ha⟩
    | rewritten _ hf ha => exact ⟨hf, b, hb, ha⟩
  have hall : (∀ b ∈ bs, Carries check data b.content ∨ b.Differs check data ∧ Carries check data (b.written data)) ↔
      ∀ m ∈ ms, Carries check data m.result.content := by
    clear hpairs hfit hok hrep hpriv hne halike
    induction hms with
    | nil => simp
    | @cons b m bs ms h _ ih =>
      rw [List.forall_mem_cons, List.forall_mem_cons, ih fun m hm => hrepair m (by simp [hm]),
        h.carries_iff hj (hrepair m (by simp))]
  rw [hall, Redundant, hdata, hpriv]
  constructor
  · rintro ⟨hreads, -⟩ m hm
    have hb : m.result ∈ r.storage.buckets.map fun b => b.priv := hpriv ▸ List.mem_map_of_mem hm
    obtain ⟨b, hmem, heq⟩ := List.mem_map.1 hb
    have h := hreads b hmem
    rw [heq] at h
    exact (readsAs_iff hj hs hf (hfit m hm).1).1 h
  · intro hcarry
    have hmem : ∀ b ∈ ms.map Mend.result, ∃ m ∈ ms, m.result = b := fun b hb => List.mem_map.1 hb
    refine ⟨fun b hb => ?_, fun env henv => ?_⟩
    · have hb' : b.priv ∈ ms.map Mend.result := hpriv ▸ List.mem_map_of_mem hb
      obtain ⟨m, hm, heq⟩ := hmem _ hb'
      rw [← heq]
      exact (readsAs_iff hj hs hf (hfit m hm).1).2 (hcarry m hm)
    have hne' : ms.map Mend.result ≠ [] := by
      intro h
      have h0 : ms = [] := List.map_eq_nil_iff.1 h
      rw [h0] at hms
      cases hms
      exact hne rfl
    obtain ⟨sel', hsel', hdata'⟩ := firstVerified_carries hne' fun b hb => by
      obtain ⟨m, hm, rfl⟩ := hmem b hb
      exact hcarry m hm
    have hresults : ∀ b ∈ ms.map Mend.result, b.Fit := fun b hb => by
      obtain ⟨m, hm, rfl⟩ := hmem b hb
      exact (hfit m hm).1
    have hresultsAlike : ∀ b ∈ ms.map Mend.result, ∀ b' ∈ ms.map Mend.result, b.Alike b' := fun b hb b' hb' => by
      obtain ⟨m, hm, rfl⟩ := hmem b hb
      obtain ⟨m', hm', rfl⟩ := hmem b' hb'
      obtain ⟨-, c, hc, ha⟩ := hfit m hm
      obtain ⟨-, c', hc', ha'⟩ := hfit m' hm'
      exact (ha.symm.trans (halike c hc c' hc')).trans ha'
    have hload := loadBuckets_clean hj hs hf henv hresults hresultsAlike
    rw [hsel'] at hload
    obtain ⟨hret', hbuf', ms', hms', -, hrep'⟩ := hload
    refine ⟨hret', hbuf'.trans hdata', ?_⟩
    rw [hrep']
    intro x hx
    obtain ⟨m', hm', rfl⟩ := List.mem_map.1 hx
    obtain ⟨i, hi, rfl⟩ := List.getElem_of_mem hm'
    have hi' : i < (ms.map Mend.result).length := hms'.length_eq ▸ hi
    have h := hms'.get hi' hi
    obtain ⟨m, hm, heq⟩ := hmem _ (List.get_mem (ms.map Mend.result) ⟨i, hi'⟩)
    have hnd := (hcarry m hm).not_differs hj
    rw [heq, ← hdata'] at hnd
    simp only [List.get_eq_getElem] at h hnd
    generalize ms'[i] = m' at h
    cases h with
    | same => rfl
    | rewritten hd => exact absurd hd hnd

end

/-! ## With the raw format -/

theorem crc32_zeros : crc32 0 (List.replicate 12 0) ≠ 0 := by decide +kernel

/-- The header of an accepted payload is not blank. -/
theorem RawAccepted.exists_ne_zero {magic : UInt32} {auth : Option Digest} {p : Bytes} {l : Nat}
    (h : RawAccepted magic auth p l) : ∃ b ∈ p.take 16, b ≠ 0 := by
  by_contra hall
  have h16 := h.header
  have hzero : p.take 16 = List.replicate 16 0 := by
    have hrep := List.eq_replicate_of_mem fun b hb => by_contra fun hne => hall ⟨b, hb, hne⟩
    rwa [List.length_take, Nat.min_eq_left h16] at hrep
  have hcrc := h.headerCrc
  have h12 : p.take 12 = List.replicate 12 0 := by
    rw [show 12 = min 12 16 from rfl, ← List.take_take, hzero]
    rfl
  have hword : (BackendRawHeader.parse p).headerCrc = 0 := by
    rw [← parse_take (le_refl 16), hzero]
    decide
  rw [h12, hword] at hcrc
  exact crc32_zeros (UInt32.toNat_inj.1 hcrc)

theorem rawCheck_accepted {magic : UInt32} {auth : Except Int (Option Digest)} {p : Bytes}
    (hauth : ∀ e, auth = .error e → e ≠ 0) (h : (rawCheck magic auth p).1 = 0) :
    ∃ d, auth = .ok d ∧ RawAccepted magic d p (passedOn (rawCheck magic auth) p).length := by
  obtain ⟨d, n, hd, hn, hacc⟩ := (rawCheck_eq_zero hauth).1 (show rawCheck magic auth p = (0, _) from Prod.ext h rfl)
  have hle := hacc.le
  refine ⟨d, hd, ?_⟩
  have hl : (passedOn (rawCheck magic auth) p).length = n := by
    rw [passedOn, show (rawCheck magic auth p).2 = n from hn, Int.toNat_natCast, List.length_take, Nat.min_eq_left hle]
  rwa [hl]

theorem raw_strict (magic : UInt32) (noAuth : Bool) (algo : Option (Option Digest)) :
    Strict (rawCheck magic (effectiveAuth noAuth algo)) where
  blank p hp h := by
    obtain ⟨d, -, hacc⟩ := rawCheck_accepted effectiveAuth_error h
    obtain ⟨b, hb, hne⟩ := hacc.exists_ne_zero
    exact hne (hp b (List.mem_of_mem_take hb))
  data p h := by
    obtain ⟨d, -, hacc⟩ := rawCheck_accepted effectiveAuth_error h
    obtain ⟨b, hb, hne⟩ := hacc.exists_ne_zero
    have hlen := hacc.len
    have hlt := parse_dataLen_lt p
    refine ⟨⟨b, ?_, hne⟩, by omega⟩
    rw [passedOn, List.length_take] at hlen
    rw [passedOn]
    have hb' : b ∈ (p.take (rawCheck magic (effectiveAuth noAuth algo) p).2.toNat).take 16 := by
      rw [List.take_take, Nat.min_eq_left (by omega)]
      exact hb
    exact List.mem_of_mem_take hb'

/-- With which bytes behind it the data in use are accepted: with their HMAC,
if one is asked for. -/
theorem carries_append {magic : UInt32} {auth : Option Digest} {sel : Bytes}
    (hsel : (rawCheck magic (.ok auth) sel).1 = 0) (t : Bytes) :
    let data := passedOn (rawCheck magic (.ok auth)) sel
    Carries (rawCheck magic (.ok auth)) data (some (data ++ t)) ↔
      authLength auth ≤ t.length ∧ hmacMatches auth (data ++ t) data.length := by
  have hauth : ∀ e, (Except.ok auth : Except Int (Option Digest)) = .error e → e ≠ 0 := by
    intro e he
    cases he
  obtain ⟨d, hd, hacc⟩ := rawCheck_accepted hauth hsel
  cases hd
  have hpassed : passedOn (rawCheck magic (.ok auth)) sel =
      sel.take (passedOn (rawCheck magic (.ok auth)) sel).length := by
    rw [passedOn, List.length_take, ← List.take_take, List.take_length]
  have hown := hacc.take
  rw [← hpassed] at hown
  generalize passedOn (rawCheck magic (.ok auth)) sel = data at hown ⊢
  have happ := hown.append t
  constructor
  · rintro ⟨p, hp, hok, hpass⟩
    cases hp
    obtain ⟨d, hd, h⟩ := rawCheck_accepted hauth hok
    cases hd
    rw [hpass] at h
    have hc := h.complete
    rw [List.length_append] at hc
    exact ⟨by omega, h.hmac⟩
  · rintro ⟨hlen, hmac⟩
    have h : RawAccepted magic auth (data ++ t) data.length :=
      ⟨happ.header, happ.headerCrc, happ.magic, happ.len, by rw [List.length_append]; omega, happ.dataCrc, hmac⟩
    have hok := (rawCheck_eq_zero hauth).2 ⟨auth, _, rfl, rfl, h⟩
    refine ⟨_, rfl, by rw [hok], ?_⟩
    rw [passedOn, hok, Int.toNat_natCast, List.take_left]

/-- The bucket can be given `data` back by a rewrite that leaves out the HMAC:
there is none, or the zeros a circular bucket pads them with are the HMAC, or
(in a backward compatible build, when there is no room for metadata) what the
file held behind them is. -/
def Restorable (magic : UInt32) (auth : Option Digest) (data : Bytes) : Bucket → Prop
  | .direct d =>
    if d.headRoom data.length then authLength auth = 0
    else Carries (rawCheck magic (.ok auth)) data (directPayload { d with area := splice 0 data d.area })
  | .circular c =>
    authLength auth ≤ c.padding data.length ∧
      hmacMatches auth (data ++ List.replicate (c.padding data.length) 0) data.length

theorem Restorable.direct {magic : UInt32} {auth : Option Digest} {data : Bytes} {d : BucketDirect}
    (h : Restorable magic auth data (.direct d)) (hroom : d.headRoom data.length) : authLength auth = 0 := by
  rwa [Restorable, if_pos hroom] at h

theorem restorable_iff {magic : UInt32} {auth : Option Digest} {sel : Bytes}
    (hsel : (rawCheck magic (.ok auth) sel).1 = 0) (b : Bucket) :
    let data := passedOn (rawCheck magic (.ok auth)) sel
    Carries (rawCheck magic (.ok auth)) data (b.written data) ↔ Restorable magic auth data b := by
  intro data
  cases b with
  | direct d =>
    simp only [Bucket.written, Restorable]
    by_cases hroom : d.headRoom data.length
    · rw [if_pos hroom, if_pos hroom]
      have h := carries_append hsel []
      simp only [List.append_nil, List.length_nil, Nat.le_zero] at h
      refine h.trans ⟨And.left, fun h0 => ⟨h0, ?_⟩⟩
      cases auth with
      | none => rfl
      | some dg =>
        have hmac : dg.mac (data.take data.length) = [] := List.eq_nil_of_length_eq_zero ((dg.mac_length _).trans h0)
        have hlen : dg.length = 0 := h0
        simp only [hmacMatches, hlen, decide_eq_true_eq]
        exact hmac.trans (by simp [slice])
    · rw [if_neg hroom, if_neg hroom]
  | circular c =>
    have h := carries_append hsel (List.replicate (c.padding data.length) 0)
    rw [List.length_replicate] at h
    exact h

/-- **What a repair is worth**: after a load with the raw format that returned
0, and all of whose writes succeeded, every bucket holds a copy of the data in
use, and a second load uses the same data and writes nothing, exactly if every
bucket that did not hold one can be given the data back without an HMAC. -/
theorem repair_redundant_iff {magic : UInt32} {noAuth : Bool} {raw : RawFormat} {env : Env} {bs : List Bucket}
    (henv : env.Clean) (hfit : ∀ b ∈ bs, b.Fit) (halike : ∀ b ∈ bs, ∀ b' ∈ bs, b.Alike b')
    (hret : (loadBuckets (backendFormatRawVerify magic noAuth) raw env bs).ret = 0)
    (hok : ∀ x ∈ (loadBuckets (backendFormatRawVerify magic noAuth) raw env bs).repairs, x = none ∨ x = some 0) :
    Redundant (backendFormatRawVerify magic noAuth) raw (loadBuckets (backendFormatRawVerify magic noAuth) raw env bs) ↔
      ∃ auth sel, effectiveAuth noAuth raw.algo = .ok auth ∧
        firstVerified (rawCheck magic (.ok auth)) (bs.filterMap Bucket.content) = some sel ∧
        ∀ b ∈ bs, Carries (rawCheck magic (.ok auth)) (passedOn (rawCheck magic (.ok auth)) sel) b.content ∨
          b.Differs (rawCheck magic (.ok auth)) (passedOn (rawCheck magic (.ok auth)) sel) ∧
            Restorable magic auth (passedOn (rawCheck magic (.ok auth)) sel) b := by
  have hj := raw_judges magic noAuth raw.algo
  have hs := raw_strict magic noAuth raw.algo
  have hload := loadBuckets_clean hj hs rfl henv hfit halike
  cases hfv : firstVerified (rawCheck magic (effectiveAuth noAuth raw.algo)) (bs.filterMap Bucket.content) with
  | none =>
    rw [hfv] at hload
    exact absurd (hload.symm.trans hret) (by decide)
  | some sel =>
    rw [hfv] at hload
    have hv : (rawCheck magic (effectiveAuth noAuth raw.algo) sel).1 = 0 := by simpa using List.find?_some hfv
    obtain ⟨auth, hauth, -⟩ := rawCheck_accepted effectiveAuth_error hv
    have hne : bs ≠ [] := by
      rintro rfl
      cases hfv
    rw [redundant_iff hj hs rfl hload hne halike hok]
    rw [hauth] at hfv hv ⊢
    have hstep : ∀ b : Bucket, _ := fun b => restorable_iff hv b
    simp only [hstep]
    constructor
    · exact fun h => ⟨auth, sel, rfl, hfv, h⟩
    · rintro ⟨auth', sel', hauth', hfv', h⟩
      cases hauth'
      cases hfv.symm.trans hfv'
      exact h

/-- An empty file has no copy afterwards if there is an HMAC to verify. -/
theorem Mends.not_redundant {magic : UInt32} {noAuth : Bool} {raw : RawFormat} {bs : List Bucket} {sel : Bytes}
    {r : ReadOutcome Bucket RawFormat} {dg : Digest} (hauth : effectiveAuth noAuth raw.algo = .ok (some dg))
    (hlen : dg.length ≠ 0) (hsel : (rawCheck magic (.ok (some dg)) sel).1 = 0)
    (hr : Mends (rawCheck magic (.ok (some dg))) bs sel r) (halike : ∀ b ∈ bs, ∀ b' ∈ bs, b.Alike b')
    (hok : ∀ x ∈ r.repairs, x = none ∨ x = some 0) {d : BucketDirect} (hd : .direct d ∈ bs)
    (hempty : directPayload d = none)
    (hroom : d.headRoom (passedOn (rawCheck magic (.ok (some dg))) sel).length) :
    ¬ Redundant (backendFormatRawVerify magic noAuth) raw r := by
  intro h
  have hj := raw_judges magic noAuth raw.algo
  have hs := raw_strict magic noAuth raw.algo
  rw [hauth] at hj hs
  have hne : bs ≠ [] := List.ne_nil_of_mem hd
  rcases (redundant_iff hj hs rfl hr hne halike hok).1 h _ hd with ⟨p, hp, -⟩ | ⟨-, hcarry⟩
  · rw [Bucket.content, hempty] at hp
    cases hp
  · exact hlen (((restorable_iff hsel (.direct d)).1 hcarry).direct hroom)

/-- An empty file with the stride of `flagFile`. -/
def emptyFile : BucketDirect := { flagFile with area := [] }

theorem flagFiles_fit : ∀ b ∈ [Bucket.direct flagFile, .direct emptyFile], b.Fit := by
  simp [Bucket.Fit, flagFile, emptyFile]

theorem flagFiles_alike : ∀ b ∈ [Bucket.direct flagFile, .direct emptyFile],
    ∀ b' ∈ [Bucket.direct flagFile, .direct emptyFile], b.Alike b' := by
  simp [Bucket.Alike, emptyFile]

/-- Loaded without authentication, the empty file gets a copy. -/
theorem repair_redundant_flag :
    Redundant (backendFormatRawVerify 1 true) signedFormat
      (loadBuckets (backendFormatRawVerify 1 true) signedFormat .ok [.direct flagFile, .direct emptyFile]) := by
  refine (repair_redundant_iff Env.Clean.ok flagFiles_fit flagFiles_alike (by decide +kernel) (by decide +kernel)).2
    ⟨none, signedFlag 0, rfl, by decide +kernel, ?_⟩
  intro b hb
  simp only [List.mem_cons, List.not_mem_nil, or_false] at hb
  rcases hb with rfl | rfl
  · exact .inl ⟨signedFlag 0, by decide +kernel, by decide +kernel, rfl⟩
  · refine .inr ⟨?_, ?_⟩
    · rw [Bucket.Differs]
      decide +kernel
    · rw [Restorable, if_pos (by decide +kernel)]
      rfl

/-- Loaded with authentication, it gets one without an HMAC: the load returns 0
and its write succeeds, but the bucket does not verify. -/
theorem repair_unauthenticated :
    let r := loadBuckets signedVerify signedFormat .ok [.direct flagFile, .direct emptyFile]
    r.ret = 0 ∧ r.repairs = [none, some 0] ∧ ¬ Redundant signedVerify signedFormat r := by
  have hrep : (loadBuckets signedVerify signedFormat .ok [.direct flagFile, .direct emptyFile]).repairs =
      [none, some 0] := by
    decide +kernel
  refine ⟨by decide +kernel, hrep, fun h => ?_⟩
  have hsel : firstVerified signedCheck ([Bucket.direct flagFile, .direct emptyFile].filterMap Bucket.content) =
      some (signedFlag 0) := by decide +kernel
  have hload := loadBuckets_clean signed_judges (raw_strict 1 false (some (some (hmacSha256Digest signedKey))))
    (show signedFormat.algo = _ from rfl) Env.Clean.ok flagFiles_fit flagFiles_alike
  simp only [hsel] at hload
  have hv : (signedCheck (signedFlag 0)).1 = 0 := congrArg Prod.fst signedFlag_check.2.2.1
  exact Mends.not_redundant rfl (by decide) hv hload flagFiles_alike (by rw [hrep]; simp)
    (List.mem_cons_of_mem _ (List.mem_singleton.2 rfl)) rfl (by decide +kernel) h

end DtUtils
