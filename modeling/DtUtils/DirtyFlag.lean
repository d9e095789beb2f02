/-
The dirty flag of a state in the unauthenticated raw format on direct buckets,
over every sequence of loads, sets and saves: as long as it is clear, a new
process loads what the old one has in memory (`dirty_flag_honest`).

A storage that a process has used before keeps buffers of buckets that did not
verify (`Discarded`) and marks of unclean reads; neither decides what a load
returns.
-/
import DtUtils.RawRoundTrip
import DtUtils.Repair
import DtUtils.StateAccess

namespace DtUtils
open Lib

/-! ## Loads and saves of a storage in use -/

/-- A `verify` without an HMAC: it sets `*lenp` only if it succeeds, and accepts
what it passes on. -/
structure Plain (check : Bytes → Int × Int) : Prop extends Strict check where
  failed : ∀ p, (check p).1 ≠ 0 → (check p).2 = p.length
  passed : ∀ p, (check p).1 = 0 → check (passedOn check p) = (0, ((passedOn check p).length : Int))

/-- A direct bucket in the default configuration. -/
structure BucketDirect.Writable (stride : Nat) (d : BucketDirect) : Prop where
  maxSize : d.maxSize = stride
  compat : d.compat = false
  readonly : d.readonly = false

theorem BucketDirect.Writable.sameFile {stride : Nat} {d d' : BucketDirect} (h : d.Writable stride)
    (hs : d.SameFile d') :
    d'.Writable stride :=
  ⟨hs.maxSize.trans h.maxSize, hs.compat.trans h.compat, hs.readonly.trans h.readonly⟩

theorem BucketDirect.Writable.headRoom {stride : Nat} {d : BucketDirect} (h : d.Writable stride) (h8 : 8 ≤ stride)
    (n : Nat) :
    d.headRoom n ↔ n + 8 ≤ stride := by
  have hlt := d.maxSize_lt
  have hm := h.maxSize
  simp only [BucketDirect.headRoom, directMetaSize]
  omega

/-- The payload in a bucket's file. -/
def heldPayload (b : StorageBucket BucketDirect) : Option Bytes := directPayload b.priv

/-- The bucket's buffer, if any, does not verify. -/
def Discarded {B : Type} (check : Bytes → Int × Int) (b : StorageBucket B) : Prop :=
  ∃ n : Nat, b.len = n ∧ n ≤ b.buf.length ∧ (check (b.buf.take n)).1 ≠ 0

/-- The bucket's buffer begins with the data that verify passed on. -/
def Carrying {B : Type} (data : Bytes) (b : StorageBucket B) : Prop :=
  b.len = data.length ∧ b.buf.take data.length = data

section
variable {F : Type} {verify : Verify F} {P : F → Prop} {check : Bytes → Int × Int} {stride : Nat}

theorem discarded_empty {B : Type} (hs : Strict check) {b : StorageBucket B} (hbuf : b.buf = []) (hlen : b.len = 0) :
    Discarded check b :=
  ⟨0, hlen, Nat.zero_le _, hs.blank _ (by simp [hbuf])⟩

/-- What the first loop makes of a bucket. -/
inductive Checked (check : Bytes → Int × Int) (b : StorageBucket BucketDirect) :
    StorageBucket BucketDirect × Bool → Prop
  | good {b'} (p : Bytes) : b.priv.SameFile b'.priv → heldPayload b = some p → (check p).1 = 0 →
      Carrying (passedOn check p) b' → Checked check b (b', true)
  | bad {b'} : b.priv.SameFile b'.priv → (∀ p, heldPayload b = some p → (check p).1 ≠ 0) → Discarded check b' →
      Checked check b (b', false)

/-- One round of the first loop of `state_storage_read`. -/
theorem checkBucket_direct (hj : Judges verify P check) (hp : Plain check) {s : Env × F}
    {b : StorageBucket BucketDirect}
    (hb : b.priv.Writable stride ∧ Discarded check b) (hs : s.1.Clean ∧ P s.2) :
    ((checkBucket directDriver verify s b).1.1.Clean ∧ P (checkBucket directDriver verify s b).1.2) ∧
      Checked check b (checkBucket directDriver verify s b).2 := by
  obtain ⟨env, f⟩ := s
  obtain ⟨hw, n, hn, hnle, hfail⟩ := hb
  obtain ⟨henv, hf⟩ := hs
  obtain ⟨env', d', ret, out, hr, hfol, hsame, hdel⟩ := bucketDirectRead_power henv.powerOnly (.inl hw.compat)
  have henv' := hfol.clean henv
  obtain ⟨x, hx, hcont⟩ : ∃ x : Fetch, x.Of ret out ∧ Delivered (heldPayload b) x := (hdel henv'.1).fetch
  have hread : directDriver.read env b.priv = (env', d', ret, out) := hr
  simp only [checkBucket, hread]
  -- A buffer that does not verify is kept as it is.
  have hbad : ∀ buf (k : Nat), k ≤ buf.length → (check (buf.take k)).1 ≠ 0 → ∀ c : StorageBucket BucketDirect,
      c.buf = buf → c.len = (check (buf.take k)).2 → Discarded check c := by
    intro buf k hk hne c hcb hcl
    have hl := hp.failed _ hne
    rw [List.length_take, Nat.min_eq_left hk] at hl
    exact ⟨k, hcl.trans hl, hcb ▸ hk, hcb ▸ hne⟩
  cases x with
  | none =>
    obtain ⟨h0, hu, rfl⟩ := hx
    rw [if_pos ⟨h0, hu⟩]
    refine ⟨⟨henv', hf⟩, .bad hsame (fun p hpay => ?_) ⟨n, hn, hnle, hfail⟩⟩
    rw [hpay] at hcont
    cases hcont
  | some x =>
    obtain ⟨p, unclean⟩ := x
    obtain ⟨hret, hout⟩ := hx
    have hgo : ¬ (ret ≠ 0 ∧ ret ≠ -EUCLEAN) := by
      cases unclean <;> simp only [Bool.false_eq_true, if_false, if_true] at hret <;> omega
    rw [if_neg hgo]
    rcases hout with ⟨rfl, rfl, rfl⟩ | ⟨buf, rfl, htake⟩
    · obtain ⟨f', hf', hv⟩ := hj.judge f b.buf n hf hnle
      simp only [Option.getD_none, hn, hv, hfail, decide_false]
      refine ⟨⟨henv', hf'⟩, .bad hsame (fun p hpay => ?_) (hbad _ n hnle hfail _ rfl rfl)⟩
      rw [hpay] at hcont
      cases hcont
    · have hle : p.length ≤ buf.length := by rw [← htake]; simp
      obtain ⟨f', hf', hv⟩ := hj.judge f buf p.length hf hle
      rw [htake] at hv
      simp only [Option.getD_some, hv]
      by_cases hok : (check p).1 = 0
      · have hpay : heldPayload b = some p := by
          generalize heldPayload b = content at hcont ⊢
          cases hcont with
          | data => rfl
          | blank hblank => exact absurd hok (hp.blank p (hblank p unclean rfl))
        simp only [hok, decide_true]
        refine ⟨⟨henv', hf'⟩, .good p hsame hpay hok ?_⟩
        have h0 := hj.len_nonneg p
        have hlen := hj.len_le p
        have hl : (passedOn check p).length = (check p).2.toNat := by
          rw [passedOn, List.length_take]
          omega
        exact ⟨by simp only; omega, by rw [hl, passedOn, take_of_take_eq htake (by omega)]⟩
      · simp only [hok, decide_false]
        refine ⟨⟨henv', hf'⟩, .bad hsame (fun q hpay => ?_)
            (hbad _ p.length hle (by rwa [htake]) _ rfl (by rw [htake]))⟩
        rw [hpay] at hcont
        cases hcont
        exact hok

/-- What the second loop makes of a bucket: with room for the data in use it
holds them afterwards, or agreed with them before. -/
structure Refreshed (check : Bytes → Int × Int) (stride : Nat) (data : Bytes) (b b' : StorageBucket BucketDirect) :
    Prop where
  writable : b'.priv.Writable stride
  discarded : Discarded check b'
  room : data.length + 8 ≤ stride → heldPayload b' = some data ∨
    (heldPayload b' = heldPayload b ∧ Carrying data b)
  full : ¬ data.length + 8 ≤ stride → heldPayload b' = heldPayload b

/-- A write takes all of the data or, without room for them, nothing. -/
theorem directWrite_clean {env : Env} (henv : env.Clean) {d : BucketDirect} (hd : d.Writable stride) (h8 : 8 ≤ stride)
    {p : Bytes} (hp : p.length < 2 ^ 31) :
    (p.length + 8 ≤ stride → ∃ env' d', bucketDirectWrite env d p = (env', d', 0) ∧ env'.Clean ∧ d'.Writable stride ∧
      directPayload d' = some p) ∧
    (¬ p.length + 8 ≤ stride → bucketDirectWrite env d p = (env, d, -EINVAL)) := by
  rw [← hd.headRoom h8]
  constructor
  · intro hroom
    obtain ⟨env', ret, k, hw, hfol, hok, hlive, -⟩ := bucketDirectWrite_power henv.powerOnly hd.readonly p
    have henv' := hfol.clean henv
    obtain rfl := hlive henv'.1 hroom hp
    obtain ⟨rfl, -, -⟩ := hok rfl
    refine ⟨env', _, hw, henv', ⟨hd.maxSize, hd.compat, hd.readonly⟩, ?_⟩
    rw [List.take_length, BucketDirect.image, if_pos hroom]
    have hle := (hd.headRoom h8 _).1 hroom
    refine directPayload_record (show _ = _ ++ d.area.drop (directRecord p).length by simp [splice]) ?_ hp
    have := hd.maxSize
    simp only
    omega
  · intro hroom
    rw [bucketDirectWrite, if_neg hroom, hd.compat, if_neg Bool.false_ne_true]

theorem refreshUnused_direct (hs : Strict check) (h8 : 8 ≤ stride) {buf data : Bytes} (hlt : data.length < 2 ^ 31)
    (hdata : buf.take data.length = data) {env : Env} {b : StorageBucket BucketDirect} (hb : b.priv.Writable stride)
    (henv : env.Clean) :
    (refreshUnused directDriver buf data.length env b).1.Clean ∧
      Refreshed check stride data b (refreshUnused directDriver buf data.length env b).2.1 := by
  simp only [refreshUnused, bucketRefresh, Int.toNat_natCast, hdata]
  by_cases hdiff : b.needsRefresh ∨ b.len ≠ data.length ∨ b.buf.take data.length ≠ data
  · rw [if_pos ⟨henv.1, hdiff⟩]
    obtain ⟨hfits, hfull⟩ := directWrite_clean henv hb h8 hlt
    by_cases hroom : data.length + 8 ≤ stride
    · obtain ⟨env', d', hw, henv', hd', hpay⟩ := hfits hroom
      have hw' : directDriver.write env b.priv data = (env', d', 0) := hw
      simp only [hw']
      exact ⟨henv', hd', discarded_empty hs rfl rfl, fun _ => .inl hpay, fun h => absurd hroom h⟩
    · have hw' : directDriver.write env b.priv data = (env, b.priv, -EINVAL) := hfull hroom
      simp only [hw']
      exact ⟨henv, hb, discarded_empty hs rfl rfl, fun h => absurd h hroom, fun _ => rfl⟩
  · rw [if_neg fun h => hdiff h.2]
    simp only [not_or, ne_eq, not_not] at hdiff
    exact ⟨henv, hb, discarded_empty hs rfl rfl, fun _ => .inr ⟨rfl, hdiff.2⟩, fun _ => rfl⟩

/-- The payloads of a storage's buckets. -/
def Storage.payloads (s : Storage BucketDirect) : List Bytes := s.buckets.filterMap heldPayload

/-- The buckets of a storage in use. -/
def InUse (check : Bytes → Int × Int) (stride : Nat) (s : Storage BucketDirect) : Prop :=
  ∀ b ∈ s.buckets, b.priv.Writable stride ∧ Discarded check b

/-- The data the next load uses. -/
def Loads (check : Bytes → Int × Int) (s : Storage BucketDirect) (data : Bytes) : Prop :=
  ∃ p, firstVerified check s.payloads = some p ∧ passedOn check p = data

/-- If whatever verifies hands on the same data, the first payload that
verifies does. -/
theorem Loads.of_all {s : Storage BucketDirect} {data : Bytes} (hex : ∃ p ∈ s.payloads, (check p).1 = 0)
    (hall : ∀ p ∈ s.payloads, (check p).1 = 0 → passedOn check p = data) : Loads check s data := by
  obtain ⟨q, hq, hok⟩ := hex
  have hsome : (firstVerified check s.payloads).isSome := List.find?_isSome.2 ⟨q, hq, by simpa using hok⟩
  obtain ⟨p, hp⟩ := Option.isSome_iff_exists.1 hsome
  have hv : (check p).1 = 0 := by simpa using List.find?_some hp
  exact ⟨p, hp, hall p (List.mem_of_find?_eq_some hp) hv⟩

/-- The bucket that is used is the first one whose payload verifies. -/
theorem firstMarked_checked {bs : List (StorageBucket BucketDirect)}
    {checked : List (StorageBucket BucketDirect × Bool)}
    (h : List.Forall₂ (Checked check) bs checked) :
    match firstMarked checked with
    | none => firstVerified check (bs.filterMap heldPayload) = none ∧ ∀ x ∈ checked, x.2 = false
    | some (_, used, _) => ∃ p, firstVerified check (bs.filterMap heldPayload) = some p ∧
        (check p).1 = 0 ∧ Carrying (passedOn check p) used := by
  induction h with
  | nil => exact ⟨rfl, by simp⟩
  | @cons b x bs checked hx _ ih =>
    cases hx with
    | good p _ hpay hok hcar =>
      rw [firstMarked, List.filterMap_cons_some hpay, firstVerified_pos hok]
      exact ⟨p, rfl, hok, hcar⟩
    | @bad b' _ hbad =>
      have hskip : firstVerified check ((b :: bs).filterMap heldPayload) =
          firstVerified check (bs.filterMap heldPayload) := by
        cases hpay : heldPayload b with
        | none => rw [List.filterMap_cons_none hpay]
        | some p => rw [List.filterMap_cons_some hpay, firstVerified_neg (hbad p hpay)]
      rw [firstMarked, hskip]
      cases hm : firstMarked checked with
      | none =>
        rw [hm] at ih
        obtain ⟨hnone, hall⟩ := ih
        refine ⟨hnone, fun x hx => ?_⟩
        rcases List.mem_cons.1 hx with rfl | hx
        · rfl
        · exact hall x hx
      | some used =>
        rw [hm] at ih
        exact ih

/-- What both loops make of a bucket. -/
structure Settled (check : Bytes → Int × Int) (stride : Nat) (data : Bytes) (b b' : StorageBucket BucketDirect) :
    Prop where
  writable : b'.priv.Writable stride
  discarded : Discarded check b'
  room : data.length + 8 ≤ stride → heldPayload b' = some data ∨
    (heldPayload b' = heldPayload b ∧
      ∀ p, heldPayload b = some p → (check p).1 = 0 → passedOn check p = data)
  full : ¬ data.length + 8 ≤ stride → heldPayload b' = heldPayload b

theorem Checked.payload {b : StorageBucket BucketDirect} {x : StorageBucket BucketDirect × Bool}
    (hx : Checked check b x) :
    heldPayload x.1 = heldPayload b := by
  cases hx with
  | good _ hsame => exact hsame.payload
  | bad hsame => exact hsame.payload

theorem Checked.writable {b : StorageBucket BucketDirect} {x : StorageBucket BucketDirect × Bool}
    (hx : Checked check b x)
    (hb : b.priv.Writable stride) : x.1.priv.Writable stride := by
  cases hx with
  | good _ hsame => exact hb.sameFile hsame
  | bad hsame => exact hb.sameFile hsame

theorem Checked.unmarked {b : StorageBucket BucketDirect} {x : StorageBucket BucketDirect × Bool}
    (hx : Checked check b x)
    (hb : b.priv.Writable stride) (hm : x.2 = false) : x.1.priv.Writable stride ∧ Discarded check x.1 := by
  refine ⟨hx.writable hb, ?_⟩
  cases hx with
  | good => cases hm
  | bad _ _ hdisc => exact hdisc

theorem Checked.settled {data : Bytes} {b b' : StorageBucket BucketDirect} {x : StorageBucket BucketDirect × Bool}
    (hx : Checked check b x) (hr : Refreshed check stride data x.1 b') : Settled check stride data b b' := by
  have hpay := hx.payload
  refine ⟨hr.writable, hr.discarded, fun hroom => ?_, fun hfull => (hr.full hfull).trans hpay⟩
  rcases hr.room hroom with h | ⟨hkept, hlen, hbuf⟩
  · exact .inl h
  refine .inr ⟨hkept.trans hpay, fun p hp hok => ?_⟩
  cases hx with
  | good q _ hq _ hcar =>
    obtain rfl : q = p := Option.some.inj (hq.symm.trans hp)
    obtain ⟨hlen', hbuf'⟩ := hcar
    have hl : (passedOn check q).length = data.length := Int.natCast_inj.1 (hlen'.symm.trans hlen)
    rw [← hbuf', hl, hbuf]
  | bad _ hbad => exact absurd hok (hbad p hp)

/-- What a load leaves: an error and the buckets as they were, or the data of
the first bucket that verifies, which are what the next load uses. -/
structure LoadedInUse (check : Bytes → Int × Int) (stride : Nat) (s : Storage BucketDirect)
    (r : ReadOutcome BucketDirect F) : Prop where
  inUse : InUse check stride r.storage
  readonly : r.storage.readonly = s.readonly
  outcome : match firstVerified check s.payloads with
    | none => r.ret = -ENOENT ∧ r.storage.payloads = s.payloads
    | some p => r.ret = 0 ∧ r.len = (passedOn check p).length ∧
      r.buf.take (passedOn check p).length = passedOn check p ∧ Loads check r.storage (passedOn check p)

/-- The second loop of `state_storage_read`. -/
theorem stateStorageRefresh_direct (hs : Strict check) (h8 : 8 ≤ stride)
    {front back : List (StorageBucket BucketDirect)}
    {used : StorageBucket BucketDirect} {data : Bytes} (hused : Carrying data used) (hlt : data.length < 2 ^ 31)
    (hw : ∀ b ∈ front ++ used :: back, b.priv.Writable stride) {env : Env} (henv : env.Clean) (f : F)
    (readonly : Bool) :
    (stateStorageRefresh directDriver env f readonly front used back).env.Clean ∧
      List.Forall₂ (Refreshed check stride data) (front ++ used :: back)
        (stateStorageRefresh directDriver env f readonly front used back).storage.buckets := by
  obtain ⟨hlen, hbuf⟩ := hused
  have hloop : ∀ {l : List (StorageBucket BucketDirect)} {env : Env}, (∀ b ∈ l, b.priv.Writable stride) → env.Clean →
      (sweep (refreshUnused directDriver used.buf data.length) env l).1.Clean ∧
      List.Forall₂ (fun b r => Refreshed check stride data b r.1) l
        (sweep (refreshUnused directDriver used.buf data.length) env l).2 := fun hl henv =>
    sweep_forall₂ (I := Env.Clean) (fun _ b hb henv => refreshUnused_direct hs h8 hlt hbuf (hl b hb) henv) henv
  simp only [stateStorageRefresh, hlen]
  obtain ⟨henv₁, hfront⟩ := hloop (l := front) (fun b hb => hw b (by simp [hb])) henv
  obtain ⟨henv₂, hback⟩ := hloop (l := back) (fun b hb => hw b (by simp [hb])) henv₁
  obtain ⟨henv₃, hmid⟩ := refreshUnused_direct hs h8 hlt hbuf (hw used (by simp)) henv₂
  rw [List.map_append, List.map_cons]
  exact ⟨henv₃, List.rel_append (List.forall₂_map_right_iff.2 hfront) (.cons hmid (List.forall₂_map_right_iff.2 hback))⟩

/-- What is used after the second loop is what is used by the next load. -/
theorem Settled.loads {s s' : Storage BucketDirect} {p : Bytes} (hp : Plain check)
    (hfv : firstVerified check s.payloads = some p)
    (hall : List.Forall₂ (Settled check stride (passedOn check p)) s.buckets s'.buckets) :
    Loads check s' (passedOn check p) := by
  have hok : (check p).1 = 0 := by simpa using List.find?_some hfv
  by_cases hroom : (passedOn check p).length + 8 ≤ stride
  · refine .of_all ?_ fun q hq hv => ?_
    · obtain ⟨b, hb, hpay⟩ := List.mem_filterMap.1 (List.mem_of_find?_eq_some hfv)
      obtain ⟨b', hb', hset⟩ := forall₂_mem_left hall hb
      have hmem : ∀ q, heldPayload b' = some q → q ∈ s'.payloads := fun q hq => List.mem_filterMap.2 ⟨b', hb', hq⟩
      rcases hset.room hroom with h | ⟨h, -⟩
      · exact ⟨_, hmem _ h, by rw [hp.passed p hok]⟩
      · exact ⟨p, hmem p (h.trans hpay), hok⟩
    · obtain ⟨b', hb', hpay⟩ := List.mem_filterMap.1 hq
      obtain ⟨b, hb, hset⟩ := forall₂_mem_right hall hb'
      rcases hset.room hroom with h | ⟨h, hsame⟩
      · obtain rfl : passedOn check p = q := Option.some.inj (h.symm.trans hpay)
        conv_lhs => rw [passedOn, hp.passed p hok, Int.toNat_natCast, List.take_length]
      · exact hsame q (h.symm.trans hpay) hv
  · have hpays : s'.payloads = s.payloads :=
      (filterMap_forall₂ (hall.imp fun b b' h => (h.full hroom).symm)).symm
    exact ⟨p, by rw [hpays, hfv], rfl⟩

theorem stateStorageRead_inUse (hj : Judges verify P check) (hp : Plain check) (h8 : 8 ≤ stride)
    {s : Storage BucketDirect} (hs : InUse check stride s) {env : Env} (henv : env.Clean) {f : F} (hf : P f) :
    (stateStorageRead directDriver verify env f s).env.Clean ∧ P (stateStorageRead directDriver verify env f s).format ∧
      LoadedInUse check stride s (stateStorageRead directDriver verify env f s) := by
  obtain ⟨⟨henv₁, hf₁⟩, hall⟩ : ((sweep (checkBucket directDriver verify) (env, f) s.buckets).1.1.Clean ∧
      P (sweep (checkBucket directDriver verify) (env, f) s.buckets).1.2) ∧
      List.Forall₂ (Checked check) s.buckets (sweep (checkBucket directDriver verify) (env, f) s.buckets).2 :=
    sweep_forall₂ (f := checkBucket directDriver verify) (I := fun t => t.1.Clean ∧ P t.2) (R := Checked check)
      (fun _ b hb hI => checkBucket_direct hj hp (hs b hb) hI) ⟨henv, hf⟩
  rcases hsw : sweep (checkBucket directDriver verify) (env, f) s.buckets with ⟨⟨env₁, f₁⟩, checked⟩
  rw [hsw] at henv₁ hf₁ hall
  have hmark := firstMarked_checked hall
  have hpays : (checked.map Prod.fst).filterMap heldPayload = s.payloads :=
    (filterMap_forall₂ (List.forall₂_map_right_iff.2 (hall.imp fun b x hx => hx.payload.symm))).symm
  cases hm : firstMarked checked with
  | none =>
    rw [hm] at hmark
    obtain ⟨hnone, hno⟩ := hmark
    simp only [stateStorageRead, hsw, hm]
    refine ⟨henv₁, hf₁, fun b' hb' => ?_, rfl, ?_⟩
    · obtain ⟨x, hx, rfl⟩ := List.mem_map.1 hb'
      obtain ⟨b, hb, hcheck⟩ := forall₂_mem_right hall hx
      exact hcheck.unmarked (hs b hb).1 (hno x hx)
    · rw [Storage.payloads, hnone]
      exact ⟨rfl, hpays⟩
  | some used =>
    obtain ⟨front, used, back⟩ := used
    rw [hm] at hmark
    obtain ⟨p, hfv, hok, hused⟩ := hmark
    have hlt := (hp.data p hok).2
    obtain ⟨rest, rfl, rfl⟩ := firstMarked_some hm
    have hlist : (front.map (·, false) ++ (used, true) :: rest).map Prod.fst = front ++ used :: rest.map Prod.fst := by
      simp [Function.comp_def]
    have hw : ∀ c ∈ front ++ used :: rest.map Prod.fst, c.priv.Writable stride := by
      intro c hc
      rw [← hlist] at hc
      obtain ⟨x, hx, rfl⟩ := List.mem_map.1 hc
      obtain ⟨b, hb, hcheck⟩ := forall₂_mem_right hall hx
      exact hcheck.writable (hs b hb).1
    obtain ⟨henv₂, hrefresh⟩ := stateStorageRefresh_direct hp.toStrict h8 hused (by omega) hw henv₁ f₁ s.readonly
    rw [← hlist, List.forall₂_map_left_iff] at hrefresh
    have hsettled := forall₂_chain (T := Settled check stride (passedOn check p))
        (fun _ _ _ hx hr => hx.settled hr) hall
      hrefresh
    simp only [stateStorageRead, hsw, hm]
    refine ⟨henv₂, hf₁, fun b' hb' => ?_, rfl, ?_⟩
    · obtain ⟨b, -, hset⟩ := forall₂_mem_right hsettled hb'
      exact ⟨hset.writable, hset.discarded⟩
    · rw [Storage.payloads, hfv]
      exact ⟨rfl, hused.1, hused.2, Settled.loads hp hfv hsettled⟩

end

/-- A write to a storage in use: it succeeds if and only if there is room, and a
bucket, and then every bucket holds the payload. -/
theorem stateStorageWrite_inUse {check : Bytes → Int × Int} {stride : Nat} (h8 : 8 ≤ stride) {s : Storage BucketDirect}
    (hs : InUse check stride s) (hro : s.readonly = false) {env : Env} (henv : env.Clean) {p : Bytes}
    (hp : p.length < 2 ^ 31)
    {env' : Env} {s' : Storage BucketDirect} {ret : Int} {rets : List Int}
    (h : stateStorageWrite directDriver env s p = (env', s', ret, rets)) :
    env'.Clean ∧ s'.readonly = false ∧ InUse check stride s' ∧
      (ret = 0 → (∃ q, q ∈ s'.payloads) ∧ ∀ q ∈ s'.payloads, q = p) := by
  have hloop := sweep_forall₂ (f := writeBucket directDriver p) (I := Env.Clean)
    (R := fun b r => (r.1.priv.Writable stride ∧ Discarded check r.1) ∧
      (p.length + 8 ≤ stride → heldPayload r.1 = some p) ∧ (¬ p.length + 8 ≤ stride → r.2 = -EINVAL))
    (l := s.buckets) (s := env) (fun env b hb henv => ?_) henv
  · rw [stateStorageWrite, hro, if_neg Bool.false_ne_true] at h
    obtain ⟨henv', hall⟩ := hloop
    rcases hsw : sweep (writeBucket directDriver p) env s.buckets with ⟨env₁, written⟩
    rw [hsw] at h henv' hall
    cases h
    refine ⟨henv', rfl, fun b hb => ?_, fun hret => ?_⟩
    · obtain ⟨r, hr, rfl⟩ := List.mem_map.1 hb
      obtain ⟨-, -, hres⟩ := forall₂_mem_right hall hr
      exact hres.1
    · split at hret
      · next hmin =>
        -- Some bucket was written, so there was room.
        obtain ⟨x, hx⟩ := List.exists_mem_of_length_pos (Nat.lt_of_lt_of_le Nat.one_pos hmin)
        obtain ⟨hx, h0⟩ := List.mem_filter.1 hx
        obtain ⟨r, hr, rfl⟩ := List.mem_map.1 hx
        obtain ⟨-, -, -, hwritten, hfull⟩ := forall₂_mem_right hall hr
        have hroom : p.length + 8 ≤ stride := by
          by_contra hno
          rw [hfull hno] at h0
          simp [EINVAL] at h0
        refine ⟨⟨p, List.mem_filterMap.2 ⟨r.1, List.mem_map_of_mem hr, hwritten hroom⟩⟩, fun q hq => ?_⟩
        obtain ⟨b, hb, hpay⟩ := List.mem_filterMap.1 hq
        obtain ⟨r', hr', rfl⟩ := List.mem_map.1 hb
        obtain ⟨-, -, -, hwritten', -⟩ := forall₂_mem_right hall hr'
        exact (Option.some.inj ((hwritten' hroom).symm.trans hpay)).symm
      · simp [ EIO] at hret
  · obtain ⟨hw, n, hn, hnle, hfail⟩ := hs b hb
    obtain ⟨hfits, hfull⟩ := directWrite_clean henv hw h8 hp
    simp only [writeBucket]
    by_cases hroom : p.length + 8 ≤ stride
    · obtain ⟨env₁, d', hwr, henv₁, hd', hpay⟩ := hfits hroom
      have hwr' : directDriver.write env b.priv p = (env₁, d', 0) := hwr
      simp only [hwr']
      exact ⟨henv₁, ⟨hd', n, hn, hnle, hfail⟩, fun _ => hpay, fun h => absurd hroom h⟩
    · have hwr' : directDriver.write env b.priv p = (env, b.priv, -EINVAL) := hfull hroom
      simp only [hwr']
      exact ⟨henv, ⟨hw, n, hn, hnle, hfail⟩, fun h => absurd h hroom, fun _ => trivial⟩

/-! ## The raw format without an HMAC -/

theorem raw_plain (magic : UInt32) : Plain (rawCheck magic (.ok none)) where
  toStrict := raw_strict magic true none
  failed p h := by
    rw [rawCheck] at h ⊢
    split
    · rfl
    next hhead =>
    rw [if_neg hhead] at h
    simp only [backendFormatRawVerifyData, hmacMatches] at h ⊢
    split
    · rfl
    next hle =>
    split
    · rfl
    next hbuf =>
    split
    · rfl
    next hcrc =>
    rw [if_neg hle, if_neg hbuf, if_neg hcrc] at h
    exact absurd rfl h
  passed p h := by
    obtain ⟨l, hl⟩ : ∃ l, rawCheck magic (.ok none) p = (0, l) := ⟨_, Prod.ext h rfl⟩
    obtain ⟨d, n, hd, rfl, hacc⟩ := (rawCheck_eq_zero (by simp)).1 hl
    cases hd
    have hle := hacc.le
    have hdata : passedOn (rawCheck magic (.ok none)) p = p.take n := by rw [passedOn, hl, Int.toNat_natCast]
    rw [hdata, List.length_take, Nat.min_eq_left hle]
    exact (rawCheck_eq_zero (by simp)).2 ⟨none, n, rfl, rfl, hacc.take⟩

/-- The data that a load of the raw format uses. -/
theorem Loads.accepted {magic : UInt32} {s : Storage BucketDirect} {data : Bytes}
    (h : Loads (rawCheck magic (.ok none)) s data) : 16 + (BackendRawHeader.parse data).dataLen = data.length := by
  obtain ⟨p, hp, rfl⟩ := h
  have hok : (rawCheck magic (.ok none) p).1 = 0 := by simpa using List.find?_some hp
  have hpass := (raw_plain magic).passed p hok
  obtain ⟨d, n, hd, hn, hacc⟩ := (rawCheck_eq_zero (by simp)).1 hpass
  have := hacc.len
  omega

/-! ## Runs of a process -/

/-- What holds of a process on direct buckets with an unauthenticated raw
state: while the flag is clear, the next load finds the values in memory. -/
structure FlagKept (stride : Nat) (s : StateData) (x : Env × State RawFormat BucketDirect) : Prop where
  clean : x.1.alive = true → x.1.Clean
  inUse : InUse (rawCheck s.magic (.ok none)) stride x.2.storage
  writable : x.2.storage.readonly = false
  algo : x.2.format.algo = none
  magic : x.2.data.magic = s.magic
  places : SamePlaces s.vars x.2.data.vars
  honest : x.2.dirty = false →
    ∃ data, Loads (rawCheck s.magic (.ok none)) x.2.storage data ∧ ValuesStored x.2.data.vars data

section
variable {stride : Nat} {s : StateData}

theorem unpack_loaded {vars : List StateVariable} (hstop : ∀ sv ∈ vars, sv.stop < 2 ^ 16) {data : Bytes}
    (hdata : 16 + (BackendRawHeader.parse data).dataLen = data.length) {buf : Bytes}
    (hbuf : buf.take data.length = data) :
    ∃ vars' ret, backendFormatRawUnpack buf vars = some (vars', ret) ∧ SamePlaces vars vars' ∧
      (ret = 0 → ValuesStored vars' data) ∧
      ∀ vals, SamePlaces vals vars → ValuesStored vals data →
        ret = 0 ∧ vars'.map StateVariable.raw = vals.map StateVariable.raw := by
  obtain ⟨rest, rfl⟩ : ∃ rest, buf = data ++ rest := ⟨buf.drop data.length, by
    conv_lhs => rw [← List.take_append_drop data.length buf, hbuf]⟩
  have hparse : BackendRawHeader.parse (data ++ rest) = BackendRawHeader.parse data := parse_append (by omega)
  have hlen : 16 + (BackendRawHeader.parse (data ++ rest)).dataLen ≤ (data ++ rest).length := by
    rw [hparse, List.length_append]
    omega
  have hwrap : ∀ sv ∈ vars, sv.stop < 2 ^ 32 := fun sv hsv => by
    have := hstop sv hsv
    omega
  obtain ⟨⟨vars', ret⟩, hun⟩ := Option.isSome_iff_exists.1 (backendFormatRawUnpack_isSome hlen hwrap)
  refine ⟨vars', ret, hun, ?_, fun h0 => ?_, fun vals hsame hvals => ?_⟩
  · rw [(unpack_eq hun).1]
    exact unpackVariable_places _ _
  · subst h0
    exact (valuesStored_append (by omega) rest).1 (unpack_valuesStored hlen hwrap hun)
  · obtain ⟨out, hout, hraw⟩ := unpack_stored hsame ((valuesStored_append (by omega) rest).2 hvals)
    rw [hun] at hout
    cases hout
    exact ⟨rfl, hraw⟩

/-- A load keeps the invariant, and gives back the values that are stored. -/
theorem FlagKept.load (h8 : 8 ≤ stride) (hstop : ∀ sv ∈ s.vars, sv.stop < 2 ^ 16) (noAuth : Bool) {env : Env}
    {st : State RawFormat BucketDirect} (h : FlagKept stride s (env, st)) (halive : env.alive = true) :
    let r := stateDoLoad rawFormat directBackend noAuth env st
    FlagKept stride s (r.1, r.2.1) ∧
      ∀ data vals, Loads (rawCheck s.magic (.ok none)) st.storage data → SamePlaces vals st.data.vars →
        ValuesStored vals data → r.2.2 = 0 ∧ r.2.1.data.vars.map StateVariable.raw = vals.map StateVariable.raw := by
  have hauth : effectiveAuth noAuth none = .ok none := by cases noAuth <;> rfl
  have hj := raw_judges s.magic noAuth none
  rw [hauth] at hj
  have hmagic : st.data.magic = s.magic := h.magic
  have hread := stateStorageRead_inUse hj (raw_plain s.magic) h8 h.inUse (h.clean halive) h.algo
  obtain ⟨henv, halgo, hinUse, hro, hout⟩ := hread
  simp only [stateDoLoad, rawFormat_verify, hmagic]
  have hread : stateStorageRead directBackend.toDriver = stateStorageRead directDriver (F := RawFormat) := rfl
  rw [hread]
  generalize stateStorageRead directDriver (backendFormatRawVerify s.magic noAuth) env st.format st.storage = r
    at henv halgo hinUse hro hout ⊢
  cases hfv : firstVerified (rawCheck s.magic (.ok none)) st.storage.payloads with
  | none =>
    rw [hfv] at hout
    rw [if_pos (by rw [hout.1]; decide)]
    refine ⟨⟨fun _ => henv, hinUse, hro.trans h.writable, halgo, hmagic, h.places, nofun⟩, fun data vals hload => ?_⟩
    obtain ⟨p, hp, -⟩ := hload
    rw [hfv] at hp
    cases hp
  | some p =>
    rw [hfv] at hout
    obtain ⟨hret, -, hbuf, hload⟩ := hout
    rw [if_neg (by rw [hret]; decide)]
    obtain ⟨vars', ret, hun, hsame, hstored, hvals⟩ := unpack_loaded ((h.places.stop_iff (· < 2 ^ 16)).1 hstop)
      hload.accepted hbuf
    have hunpack : rawFormat.unpack r.format st.data r.buf r.len = some (r.format, vars', ret) := by
      rw [rawFormat_unpack, show backendFormatRawUnpack r.buf st.data.vars = _ from hun]
      rfl
    simp only [stateUnpack, hunpack]
    refine ⟨⟨fun _ => henv, hinUse, hro.trans h.writable, halgo, hmagic, h.places.trans hsame, fun hdirty => ?_⟩,
      fun data vals hl hplaces hv => ?_⟩
    · exact ⟨_, hload, hstored (by simpa using hdirty)⟩
    · obtain ⟨q, hq, rfl⟩ := hl
      obtain rfl : q = p := Option.some.inj (hq.symm.trans hfv)
      exact hvals vals hplaces hv

theorem FlagKept.save (h8 : 8 ≤ stride) (hne : s.vars ≠ []) (hconf : variablesConflict s.vars = false)
    (hstop : ∀ sv ∈ s.vars, sv.stop < 2 ^ 16) {env : Env} {st : State RawFormat BucketDirect}
    (h : FlagKept stride s (env, st)) (halive : env.alive = true) :
    let r := stateSave rawFormat directBackend env st
    FlagKept stride s (r.1, r.2.1) := by
  have hmagic : st.data.magic = s.magic := h.magic
  have halgo : st.format.algo = none := h.algo
  have hdig : st.format.digest = none := by
    cases hd : st.format.digest with
    | none => rfl
    | some d =>
      have := st.format.same d hd
      rw [halgo] at this
      cases this
  have hstop' : ∀ sv ∈ st.data.vars, sv.stop < 2 ^ 16 := (h.places.stop_iff (· < 2 ^ 16)).1 hstop
  have hconf' : variablesConflict st.data.vars = false := h.places.conflict ▸ hconf
  have hne' : st.data.vars ≠ [] := fun hnil => hne (List.eq_nil_of_length_eq_zero (by
    have := h.places.length_eq
    rwa [hnil] at this))
  obtain ⟨b, hb⟩ := pack_isSome hne' hconf' hstop' st.data.magic st.format
  obtain ⟨n, -, hacc, hlen, hvals⟩ := pack_restores hconf' hb hstop'
  have hpack : rawFormat.pack st.format st.data = some (st.format, .ok b) := by
    rw [rawFormat_pack, backendFormatRawPack, if_neg (by simp [halgo]), hb]
    rfl
  have hn : b.length = n := by
    rw [hlen, RawFormat.digestLength_eq, hdig]
    rfl
  simp only [stateSave, hpack]
  split
  · exact h
  next hdirty =>
  rw [stateSaveBuf]
  split
  · exact ⟨h.clean, h.inUse, h.writable, halgo, hmagic, h.places, fun h0 => absurd h0 hdirty⟩
  rcases hw : stateStorageWrite directDriver env st.storage b with ⟨env', storage', ret, rets⟩
  have hplt := parse_dataLen_lt b
  have hplen := hacc.len
  obtain ⟨henv', hro', hinUse', hok⟩ := stateStorageWrite_inUse h8 h.inUse h.writable (h.clean halive) (by omega) hw
  have hwd : stateStorageWrite directBackend.toDriver env st.storage b = (env', storage', ret, rets) := hw
  simp only [hwd]
  refine ⟨fun _ => henv', hinUse', hro', halgo, hmagic, h.places, fun hclean => ⟨b, ?_, hvals⟩⟩
  have hret : ret = 0 := by
    by_contra hret
    rw [if_pos hret] at hclean
    exact hdirty hclean
  obtain ⟨⟨q, hq⟩, hall⟩ := hok hret
  have hcheck : rawCheck s.magic (.ok none) b = (0, (n : Int)) :=
    (rawCheck_eq_zero (by simp)).2 ⟨none, n, rfl, rfl, hmagic ▸ hacc⟩
  have hpass : passedOn (rawCheck s.magic (.ok none)) b = b := by
    rw [passedOn, hcheck, Int.toNat_natCast, ← hn, List.take_length]
  refine .of_all ⟨q, hq, ?_⟩ fun q' hq' _ => ?_
  · rw [hall q hq, hcheck]
  · rw [hall q' hq', hpass]

theorem FlagKept.crash {env : Env} {st : State RawFormat BucketDirect} (h : FlagKept stride s (env, st)) :
    FlagKept stride s (env.crash, st) :=
  ⟨nofun, h.inUse, h.writable, h.algo, h.magic, h.places, h.honest⟩

theorem FlagKept.set {env : Env} {st : State RawFormat BucketDirect} (h : FlagKept stride s (env, st))
    (name val : CString) :
    FlagKept stride s (stateSetCall env st name val) := by
  rw [stateSetCall]
  split
  · exact h.crash
  next vars set ret hset =>
  obtain ⟨hall, hkept, -⟩ := stateSetVar_kept hset
  refine ⟨h.clean, h.inUse, h.writable, h.algo, h.magic, h.places.trans (hall.imp fun _ _ hab => hab.2),
      fun hdirty => ?_⟩
  simp only [Bool.or_eq_false_iff] at hdirty
  rw [hkept hdirty.1]
  exact h.honest hdirty.2

theorem FlagKept.exec (h8 : 8 ≤ stride) (hne : s.vars ≠ []) (hconf : variablesConflict s.vars = false)
    (hstop : ∀ sv ∈ s.vars, sv.stop < 2 ^ 16) {x : Env × State RawFormat BucketDirect} (h : FlagKept stride s x)
    (halive : x.1.alive = true) (call : StateCall) : FlagKept stride s (call.exec rawFormat directBackend x.1 x.2) := by
  cases call with
  | load => exact (h.load h8 hstop false halive).1
  | loadNoAuth => exact (h.load h8 hstop true halive).1
  | get name =>
    simp only [StateCall.exec]
    split
    · exact h.crash
    · exact h
  | set name val => exact h.set name val
  | save => exact h.save h8 hne hconf hstop halive

theorem FlagKept.new {env : Env} (henv : env.Clean) {bs : List BucketDirect} (hbs : ∀ b ∈ bs, b.Writable stride)
    {raw : RawFormat} (hraw : raw.algo = none) : FlagKept stride s (env, stateNew raw false s bs) := by
  refine ⟨fun _ => henv, fun b hb => ?_, rfl, hraw, rfl, .refl _, nofun⟩
  obtain ⟨d, hd, rfl⟩ := List.mem_map.1 hb
  exact ⟨hbs d hd, discarded_empty (raw_plain s.magic).toStrict rfl rfl⟩

/-- The invariant holds after every sequence of calls. -/
theorem FlagKept.run (h8 : 8 ≤ stride) (hne : s.vars ≠ []) (hconf : variablesConflict s.vars = false)
    (hstop : ∀ sv ∈ s.vars, sv.stop < 2 ^ 16) {start : Env × State RawFormat BucketDirect}
    (hstart : FlagKept stride s start)
    {calls : List StateCall} {x : Env × State RawFormat BucketDirect}
    (hrun : (stateSystem rawFormat directBackend start).Run calls x) : FlagKept stride s x := by
  have hinv : (stateSystem rawFormat directBackend start).Invariant fun _ => FlagKept stride s := by
    refine ⟨fun hinit => ?_, fun hx hstep => ?_⟩
    · rw [show _ = start from hinit]
      exact hstart
    · obtain ⟨halive, rfl⟩ := hstep
      exact hx.exec h8 hne hconf hstop halive _
  exact hinv.run hrun

/-- A new process that creates the state from the same description loads the
values that the state of the old one has. -/
def Reloads (s : StateData) (st : State RawFormat BucketDirect) : Prop :=
  ∀ env : Env, env.Clean →
    let fresh := stateNew (backendFormatRawCreate none) false s (st.storage.buckets.map fun b => b.priv.reopen)
    let r := stateLoad rawFormat directBackend env fresh
    r.2.2 = 0 ∧ r.2.1.data.vars.map StateVariable.raw = st.data.vars.map StateVariable.raw

theorem FlagKept.reloads (h8 : 8 ≤ stride) (hstop : ∀ sv ∈ s.vars, sv.stop < 2 ^ 16)
    {x : Env × State RawFormat BucketDirect}
    (h : FlagKept stride s x) (hdirty : x.2.dirty = false) : Reloads s x.2 := by
  intro env henv
  obtain ⟨data, ⟨p, hp, rfl⟩, hstored⟩ := h.honest hdirty
  have hfresh : FlagKept stride s (env, stateNew (backendFormatRawCreate none) false s
      (x.2.storage.buckets.map fun b => b.priv.reopen)) := by
    refine .new henv (fun b hb => ?_) rfl
    obtain ⟨c, hc, rfl⟩ := List.mem_map.1 hb
    exact (h.inUse c hc).1.sameFile c.priv.reopen_sameFile
  refine (hfresh.load h8 hstop false henv.1).2 _ _ ⟨p, ?_, rfl⟩ h.places.symm hstored
  -- Its buckets hold the same payloads.
  rw [← hp]
  congr 1
  simp only [Storage.payloads, stateNew, Storage.fresh, List.map_map, List.filterMap_map]
  refine List.filterMap_congr fun b _ => ?_
  exact b.priv.reopen_sameFile.payload

end

/-- **The dirty flag is honest**: on direct buckets in the default configuration,
after any sequence of loads, sets and saves that meet no fault, a state in the
unauthenticated raw format whose flag is clear is what a new process loads. -/
theorem dirty_flag_honest {node : DeviceNode} {s : StateData} (hnode : stateFromNodeCreate node = some (s, 0))
    (hne : s.vars ≠ []) (hsize : ∀ sv ∈ s.vars, sv.stop ≤ 65535) {stride : Nat}
    (h8 : 8 ≤ stride) {bs : List BucketDirect}
    (hbs : ∀ b ∈ bs, b.Writable stride) {env : Env} (henv : env.Clean) {calls : List StateCall}
    {x : Env × State RawFormat BucketDirect}
    (hrun : (stateSystem rawFormat directBackend (env, stateNew (backendFormatRawCreate none) false s bs)).Run calls x)
    (hdirty : x.2.dirty = false) : Reloads s x.2 := by
  obtain ⟨-, -, -, -, hconf⟩ := stateFromNodeCreate_accepted hnode
  have hstop : ∀ sv ∈ s.vars, sv.stop < 2 ^ 16 := fun sv hsv => by
    have := hsize sv hsv
    omega
  exact ((FlagKept.new henv hbs rfl).run h8 hne hconf hstop hrun).reloads h8 hstop hdirty

/-- An empty file of 64 bytes. -/
def blankBucket : BucketDirect := bucketDirectCreate 64 false false (List.replicate 64 0)

/-- Three of them, opened by a process. -/
def blankStart (s : StateData) : Env × State RawFormat BucketDirect :=
  (.ok, stateNew (backendFormatRawCreate none) false s [blankBucket, blankBucket, blankBucket])

/-- The process finds no state, sets a variable and saves. -/
theorem dirty_flag_honest_first : ∃ s x, stateFromNodeCreate (singleNode 0) = some (s, 0) ∧
    (stateSystem rawFormat directBackend (blankStart s)).Run [.save, .set (cstr "count") (cstr "7"), .load] x ∧
    x.2.dirty = false ∧ Reloads s x.2 := by
  let step := fun (x : Env × State RawFormat BucketDirect)
      (call : StateCall) => call.exec rawFormat directBackend x.1 x.2
  obtain ⟨s, hs⟩ : ∃ s, acceptedState (singleNode 0) = some s := Option.isSome_iff_exists.1 (by decide +kernel)
  have heval : (acceptedState (singleNode 0)).map (fun s =>
      let x₁ := step (blankStart s) .load
      let x₂ := step x₁ (.set (cstr "count") (cstr "7"))
      (s.vars.isEmpty, s.vars.all fun sv => decide (sv.stop ≤ 65535), x₁.1.alive, x₂.1.alive,
          (step x₂ .save).2.dirty)) =
    some (false, true, true, true, false) := by decide +kernel
  rw [hs, Option.map_some, Option.some.injEq, Prod.mk.injEq, Prod.mk.injEq, Prod.mk.injEq, Prod.mk.injEq] at heval
  obtain ⟨hne, hsize, h₁, h₂, hdirty⟩ := heval
  have hrun := stateSystem_step (stateSystem_step (stateSystem_step (.init (s := blankStart s) rfl) rfl .load) h₁
    (.set (cstr "count") (cstr "7"))) h₂ .save
  -- The state behind the run is not to be unfolded from here on.
  generalize hx : step (step (step (blankStart s) .load) (.set (cstr "count") (cstr "7"))) .save = x at hdirty
  have hrun' : (stateSystem rawFormat directBackend (blankStart s)).Run
      [.save, .set (cstr "count") (cstr "7"), .load] x := hx ▸ hrun
  have hvars : s.vars ≠ [] := by
    intro hnil
    rw [hnil] at hne
    cases hne
  have hstop : ∀ sv ∈ s.vars, sv.stop ≤ 65535 := by
    intro sv hsv
    simpa using List.all_eq_true.1 hsize sv hsv
  have hbuckets : ∀ b ∈ [blankBucket, blankBucket, blankBucket], b.Writable 64 := by
    intro d hd
    have hblank : blankBucket.Writable 64 := ⟨rfl, rfl, rfl⟩
    simp only [List.mem_cons, List.not_mem_nil, or_false, or_self] at hd
    rwa [hd]
  exact ⟨s, x, acceptedState_eq hs, hrun', hdirty,
    dirty_flag_honest (acceptedState_eq hs) hvars hstop (by decide) hbuckets .ok hrun' hdirty⟩

end DtUtils
