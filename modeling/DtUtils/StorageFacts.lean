/-
`state_storage_read` in terms of what the buckets deliver. A `Fetch` is what
one bucket's read comes to: nothing, or some bytes (perhaps reported
unclean). With a `verify` that judges those bytes alone (`Judges`) the fetches
decide which bucket is used (`chosen`) and which ones are rewritten
(`differs`).
-/
import DtUtils.Storage

namespace DtUtils
open Lib

/-- What a bucket's read comes to: the bytes delivered, if any, and whether
they were reported unclean. -/
abbrev Fetch := Option (Bytes × Bool)

/-- The results of a `read` that come to the fetch `x`. -/
def Fetch.Of (x : Fetch) (ret : Int) (out : Option (Bytes × Int)) : Prop :=
  match x with
  | none => ret ≠ 0 ∧ ret ≠ -EUCLEAN ∧ out = none
  | some (p, unclean) =>
    ret = (if unclean then -EUCLEAN else 0) ∧
      ((out = none ∧ p = [] ∧ unclean = true) ∨ ∃ buf, out = some (buf, (p.length : Int)) ∧ buf.take p.length = p)

/-- `verify` depends on the bytes alone, as long as the format's state is in
`P`, and `*lenp` stays inside them: `check` is its return value and `*lenp`. -/
structure Judges {F : Type} (verify : Verify F) (P : F → Prop) (check : Bytes → Int × Int) : Prop where
  judge : ∀ f buf (n : Nat), P f → n ≤ buf.length → ∃ f', P f' ∧ verify f buf n = some (f', check (buf.take n))
  len_nonneg : ∀ p, 0 ≤ (check p).2
  len_le : ∀ p, (check p).2 ≤ p.length

section
variable (check : Bytes → Int × Int)

/-- The first delivered bytes that verify. -/
def chosen : List Fetch → Option Bytes
  | [] => none
  | some (p, _) :: xs => if (check p).1 = 0 then some p else chosen xs
  | none :: xs => chosen xs

/-- The part of accepted bytes that verify passes on. -/
def passedOn (p : Bytes) : Bytes := p.take (check p).2.toNat

/-- A bucket that read as the fetch differs from the data in use. -/
def differs (data : Bytes) : Fetch → Prop
  | none => data ≠ []
  | some (p, unclean) => unclean = true ∨ (check p).2 ≠ data.length ∨ p.take data.length ≠ data

instance (data : Bytes) (x : Fetch) : Decidable (differs check data x) := by
  cases x <;> unfold differs <;> infer_instance

/-- A bucket that read as `fetch`, after the first loop of
`state_storage_read` and with its mark. -/
inductive Probed {B : Type} : Fetch → StorageBucket B → Bool → Prop
  | failed {b} : b.buf = [] → b.len = 0 → b.needsRefresh = false → Probed none b false
  | read {b p unclean m} : b.buf.take p.length = p → b.len = (check p).2 → b.needsRefresh = unclean →
      (m = true ↔ (check p).1 = 0) → Probed (some (p, unclean)) b m

end

/-- A bucket, what it read as, and what the first loop made of it. -/
structure Probe (B : Type) where
  bucket : B
  fetch : Fetch
  after : StorageBucket B
  mark : Bool

/-- A bucket, what it read as, what the second loop made of it, and the return
value of its rewrite if there was one. -/
structure Mend (B : Type) where
  bucket : B
  fetch : Fetch
  result : B
  repair : Option Int

section
variable {B F : Type} {d : Driver B} {verify : Verify F} {P : F → Prop} {check : Bytes → Int × Int}

/-- One round of the first loop on a bucket of a fresh process. -/
theorem checkBucket_probed (hj : Judges verify P check) {env : Env} {f : F} {b : B} {x : Fetch} (hf : P f)
    (hx : x.Of (d.read env b).2.2.1 (d.read env b).2.2.2) :
    (checkBucket d verify (env, f) { priv := b }).1.1 = (d.read env b).1 ∧
      P (checkBucket d verify (env, f) { priv := b }).1.2 ∧
      Probed check x (checkBucket d verify (env, f) { priv := b }).2.1
          (checkBucket d verify (env, f) { priv := b }).2.2 ∧
      (checkBucket d verify (env, f) { priv := b }).2.1.priv = (d.read env b).2.1 := by
  rcases hr : d.read env b with ⟨env', b', ret, out⟩
  rw [hr] at hx
  simp only [checkBucket, hr]
  cases x with
  | none =>
    obtain ⟨h0, hu, rfl⟩ := hx
    simp only [Option.getD_none]
    rw [if_pos ⟨h0, hu⟩]
    exact ⟨rfl, hf, .failed rfl rfl (by simpa using hu), rfl⟩
  | some x =>
    obtain ⟨p, unclean⟩ := x
    obtain ⟨hret, hout⟩ := hx
    have hgo : ¬ (ret ≠ 0 ∧ ret ≠ -EUCLEAN) := by
      cases unclean <;> simp only [Bool.false_eq_true, if_false, if_true] at hret <;> omega
    have hunclean : decide (ret = -EUCLEAN) = unclean := by
      cases unclean <;> simp only [Bool.false_eq_true, if_false, if_true] at hret <;> subst hret <;> decide
    obtain ⟨buf, hbuf, hlen, hsel⟩ : ∃ buf, buf.take p.length = p ∧ p.length ≤ buf.length ∧
        out.getD ([], 0) = (buf, (p.length : Int)) := by
      rcases hout with ⟨rfl, rfl, -⟩ | ⟨buf, rfl, htake⟩
      · exact ⟨[], rfl, le_refl _, rfl⟩
      · refine ⟨buf, htake, ?_, rfl⟩
        rw [← htake]; simp
    rw [if_neg hgo, hsel]
    obtain ⟨f', hf', hv⟩ := hj.judge f buf p.length hf hlen
    rw [hbuf] at hv
    simp only [hv, hunclean, Bool.false_or]
    exact ⟨trivial, hf', .read hbuf rfl rfl (by simp), trivial⟩

/-- The first loop of `state_storage_read` in a fresh process whose reads
keep the environment in `E`. -/
theorem sweep_checkBucket (hj : Judges verify P check) {E : Env → Prop} {L : B → Fetch → B → Prop} {bs : List B}
    (hread : ∀ env, ∀ b ∈ bs, E env → E (d.read env b).1 ∧
      ∃ x : Fetch, x.Of (d.read env b).2.2.1 (d.read env b).2.2.2 ∧ L b x (d.read env b).2.1)
    {env : Env} {f : F} (henv : E env) (hf : P f) :
    ∃ (env' : Env) (f' : F) (ts : List (Probe B)), E env' ∧ P f' ∧ bs = ts.map Probe.bucket ∧
      sweep (checkBucket d verify) (env, f) (bs.map fun b => { priv := b }) =
        ((env', f'), ts.map fun t => (t.after, t.mark)) ∧
      ∀ t ∈ ts, Probed check t.fetch t.after t.mark ∧ L t.bucket t.fetch t.after.priv := by
  induction bs generalizing env f with
  | nil => exact ⟨env, f, [], henv, hf, rfl, rfl, by simp⟩
  | cons b bs ih =>
    obtain ⟨hE, x, hx, hL⟩ := hread env b (by simp) henv
    obtain ⟨h1, h2, h3, h4⟩ := checkBucket_probed hj hf hx
    rw [← h1] at hE
    obtain ⟨env', f', ts, hE', hf', rfl, hs, hts⟩ := ih (fun env b hb => hread env b (by simp [hb])) hE h2
    rcases hc : checkBucket d verify (env, f) { priv := b } with ⟨⟨env₁, f₁⟩, c, m⟩
    rw [hc] at hs h3 h4
    refine ⟨env', f', ⟨b, x, c, m⟩ :: ts, hE', hf', rfl, ?_, ?_⟩
    · rw [List.map_cons, sweep_cons, hc, hs]
      rfl
    · intro t ht
      rcases List.mem_cons.1 ht with rfl | ht
      · exact ⟨h3, h4 ▸ hL⟩
      · exact hts t ht

/-- The bucket used is the first one whose bytes verify. -/
def Selects (check : Bytes → Int × Int) (ts : List (Probe B)) : Prop :=
  (firstMarked (ts.map fun t => (t.after, t.mark)) = none ∧ chosen check (ts.map Probe.fetch) = none) ∨
  ∃ fs t bs p u, ts = fs ++ t :: bs ∧ t.fetch = some (p, u) ∧ (check p).1 = 0 ∧
    chosen check (ts.map Probe.fetch) = some p ∧
    firstMarked (ts.map fun t => (t.after, t.mark)) = some (fs.map Probe.after, t.after, bs.map Probe.after)

theorem Selects.skip {ts : List (Probe B)} (h : Selects check ts) {t : Probe B} (hm : t.mark = false)
    (hc : chosen check ((t :: ts).map Probe.fetch) = chosen check (ts.map Probe.fetch)) : Selects check (t :: ts) := by
  rcases h with ⟨h1, h2⟩ | ⟨fs, t', bs, p, u, rfl, h1, h2, h3, h4⟩
  · refine .inl ⟨?_, hc.trans h2⟩
    rw [List.map_cons, hm, firstMarked, h1]
    rfl
  · refine .inr ⟨t :: fs, t', bs, p, u, rfl, h1, h2, hc.trans h3, ?_⟩
    rw [List.map_cons, hm, firstMarked, h4]
    rfl

theorem firstMarked_probed {ts : List (Probe B)} (h : ∀ t ∈ ts, Probed check t.fetch t.after t.mark) :
    Selects check ts := by
  induction ts with
  | nil => exact .inl ⟨rfl, rfl⟩
  | cons t ts ih =>
    have hrest := ih fun t ht => h t (by simp [ht])
    obtain ⟨b, x, c, m⟩ := t
    cases h ⟨b, x, c, m⟩ (by simp) with
    | failed => exact hrest.skip rfl rfl
    | @read _ p u _ _ _ _ hm =>
      cases m with
      | true =>
        refine .inr ⟨[], _, ts, p, u, rfl, rfl, hm.1 rfl, ?_, ?_⟩
        · simp [chosen, hm.1 rfl]
        · simp [firstMarked]
      | false =>
        have hok : (check p).1 ≠ 0 := fun h0 => by simpa using hm.2 h0
        exact hrest.skip rfl (by simp [chosen, hok])

theorem take_of_take_eq {buf p : Bytes} {n : Nat} (h : buf.take p.length = p) (hn : n ≤ p.length) :
    buf.take n = p.take n := by
  conv_rhs => rw [← h, List.take_take, Nat.min_eq_left hn]

theorem Probed.used (hj : Judges verify P check) {p : Bytes} {u m : Bool} {b : StorageBucket B}
    (h : Probed check (some (p, u)) b m) :
    b.len = (passedOn check p).length ∧ b.buf.take (passedOn check p).length = passedOn check p := by
  cases h with
  | read hbuf hlen =>
    have h0 := hj.len_nonneg p
    have hle := hj.len_le p
    have hl : (passedOn check p).length = (check p).2.toNat := by
      rw [passedOn, List.length_take]
      omega
    refine ⟨by omega, ?_⟩
    rw [hl, passedOn, take_of_take_eq hbuf (by omega)]

/-- `bucket_refresh` rewrites exactly the buckets that differ. -/
theorem bucketRefresh_probed (hj : Judges verify P check) {x : Fetch} {b : StorageBucket B} {m : Bool}
    {buf data : Bytes} {env : Env} (hx : Probed check x b m) (hdata : buf.take data.length = data) :
    bucketRefresh d buf data.length env b =
      if env.alive ∧ differs check data x then
        ((d.write env b.priv data).1,
          { b with priv := (d.write env b.priv data).2.1, needsRefresh :=
              if (d.write env b.priv data).2.2 ≠ 0 then b.needsRefresh else false },
          some (d.write env b.priv data).2.2)
      else (env, b, none) := by
  have hiff : (b.needsRefresh ∨ b.len ≠ (data.length : Int) ∨ b.buf.take data.length ≠ data) ↔
      differs check data x := by
    cases hx with
    | failed hbuf hlen hn =>
      rw [hbuf, hlen, hn]
      cases data with
      | nil => simp [differs]
      | cons a data => simp [differs]
    | @read _ p u _ hbuf hlen hn =>
      rw [hlen, hn, differs]
      have hle := hj.len_le p
      by_cases hl : (check p).2 = data.length
      · rw [take_of_take_eq hbuf (by omega)]
      · simp [hl]
  simp only [bucketRefresh, Int.toNat_natCast, hdata, hiff]

/-- What the second loop does with a bucket: it is rewritten with the data in
use if it differs from them, and left alone otherwise. -/
inductive Mended (d : Driver B) (check : Bytes → Int × Int) (E : Env → Prop) (L : B → Fetch → B → Prop)
    (data : Bytes) : Mend B → Prop
  | same {b x b'} : L b x b' → ¬ differs check data x → Mended d check E L data ⟨b, x, b', none⟩
  | rewritten {b x b' env} : L b x b' → differs check data x → E env →
      Mended d check E L data ⟨b, x, (d.write env b' data).2.1, some (d.write env b' data).2.2⟩

theorem refreshUnused_mended (hj : Judges verify P check) {E : Env → Prop} {L : B → Fetch → B → Prop}
    {buf data : Bytes} (hdata : buf.take data.length = data) (halive : ∀ env, E env → env.alive = true)
    (hwrite : ∀ env b x b', E env → L b x b' → E (d.write env b' data).1) {t : Probe B}
    (ht : Probed check t.fetch t.after t.mark) (hL : L t.bucket t.fetch t.after.priv) {env : Env} (henv : E env) :
    ∃ env' b r, E env' ∧ refreshUnused d buf data.length env t.after = (env', b, r) ∧
      Mended d check E L data ⟨t.bucket, t.fetch, b.priv, r⟩ := by
  have hstep : bucketRefresh d buf data.length env t.after = _ := bucketRefresh_probed hj ht hdata
  simp only [refreshUnused]
  by_cases hdiff : differs check data t.fetch
  · rw [if_pos ⟨halive _ henv, hdiff⟩] at hstep
    rw [hstep]
    exact ⟨_, _, _, hwrite _ _ _ _ henv hL, rfl, .rewritten hL hdiff henv⟩
  · rw [if_neg (by simp [hdiff])] at hstep
    rw [hstep]
    exact ⟨_, _, _, henv, rfl, .same hL hdiff⟩

theorem sweep_refreshUnused (hj : Judges verify P check) {E : Env → Prop} {L : B → Fetch → B → Prop}
    {buf data : Bytes} (hdata : buf.take data.length = data) (halive : ∀ env, E env → env.alive = true)
    (hwrite : ∀ env b x b', E env → L b x b' → E (d.write env b' data).1) {ts : List (Probe B)}
    (h : ∀ t ∈ ts, Probed check t.fetch t.after t.mark ∧ L t.bucket t.fetch t.after.priv) {env : Env} (henv : E env) :
    ∃ (env' : Env) (bs : List (StorageBucket B × Option Int)) (rs : List (Mend B)), E env' ∧
      sweep (refreshUnused d buf data.length) env (ts.map Probe.after) = (env', bs) ∧
      (∀ r ∈ rs, Mended d check E L data r) ∧ rs.map Mend.bucket = ts.map Probe.bucket ∧
      rs.map Mend.fetch = ts.map Probe.fetch ∧ bs.map (fun b => b.1.priv) = rs.map Mend.result ∧
      bs.map Prod.snd = rs.map Mend.repair := by
  induction ts generalizing env with
  | nil => exact ⟨env, [], [], henv, rfl, by simp, rfl, rfl, rfl, rfl⟩
  | cons t ts ih =>
    obtain ⟨ht, hL⟩ := h t (by simp)
    obtain ⟨env₁, b, r, hE, hstep, hm⟩ := refreshUnused_mended hj hdata halive hwrite ht hL henv
    obtain ⟨env', bs, rs, hE', hs, hrs, hb, hx, hres, hrep⟩ := ih (fun t ht => h t (by simp [ht])) hE
    refine ⟨env', (b, r) :: bs, ⟨t.bucket, t.fetch, b.priv, r⟩ :: rs, hE', ?_, ?_, ?_, ?_, ?_, ?_⟩
    · rw [List.map_cons, sweep_cons, hstep, hs]
    · intro m hmem
      rcases List.mem_cons.1 hmem with rfl | hmem
      · exact hm
      · exact hrs m hmem
    · rw [List.map_cons, List.map_cons, hb]
    · rw [List.map_cons, List.map_cons, hx]
    · rw [List.map_cons, List.map_cons, hres]
    · rw [List.map_cons, List.map_cons, hrep]

/-- What `state_storage_read` does in a fresh process that is not stopped. -/
inductive Loaded (d : Driver B) (check : Bytes → Int × Int) (E : Env → Prop) (L : B → Fetch → B → Prop)
    (bs : List B) (r : ReadOutcome B F) : Prop
  | none (ms : List (B × Fetch × B)) : bs = ms.map Prod.fst → (∀ m ∈ ms, L m.1 m.2.1 m.2.2) →
      chosen check (ms.map fun m => m.2.1) = none → r.ret = -ENOENT → r.repairs = [] →
      r.storage.buckets.map StorageBucket.priv = ms.map (fun m => m.2.2) → Loaded d check E L bs r
  | some (ms : List (Mend B)) (p : Bytes) : bs = ms.map Mend.bucket → chosen check (ms.map Mend.fetch) = some p →
      (∀ m ∈ ms, Mended d check E L (passedOn check p) m) → r.ret = 0 →
      r.buf.take r.len.toNat = passedOn check p → r.len = (passedOn check p).length →
      r.storage.buckets.map StorageBucket.priv = ms.map Mend.result → r.repairs = ms.map Mend.repair →
      Loaded d check E L bs r

theorem stateStorageRead_loaded (hj : Judges verify P check) {E : Env → Prop} {L : B → Fetch → B → Prop}
    (halive : ∀ env, E env → env.alive = true) {bs : List B}
    (hread : ∀ env, ∀ b ∈ bs, E env → E (d.read env b).1 ∧
      ∃ x : Fetch, x.Of (d.read env b).2.2.1 (d.read env b).2.2.2 ∧ L b x (d.read env b).2.1)
    (hwrite : ∀ p, (check p).1 = 0 → (∃ b ∈ bs, ∃ u b', L b (some (p, u)) b') → ∀ env b x b', E env → L b x b' →
      E (d.write env b' (passedOn check p)).1)
    {env : Env} {f : F} (henv : E env) (hf : P f) (readonly : Bool) :
    E (stateStorageRead d verify env f (.fresh readonly bs)).env ∧
      P (stateStorageRead d verify env f (.fresh readonly bs)).format ∧
      Loaded d check E L bs (stateStorageRead d verify env f (.fresh readonly bs)) := by
  obtain ⟨env₁, f₁, ts, hE₁, hf₁, rfl, hs, hts⟩ := sweep_checkBucket hj hread henv hf
  rcases firstMarked_probed fun t ht => (hts t ht).1 with ⟨hm, hc⟩ | ⟨fs, t, bs, p, u, rfl, hfetch, hok, hc, hm⟩
  · simp only [stateStorageRead, Storage.fresh, hs, hm]
    refine ⟨hE₁, hf₁, .none (ts.map fun t => (t.bucket, t.fetch, t.after.priv)) ?_ ?_ ?_ rfl rfl ?_⟩
    · simp
    · intro m hmem
      obtain ⟨t, ht, rfl⟩ := List.mem_map.1 hmem
      exact (hts t ht).2
    · rw [List.map_map]; exact hc
    · simp
  · obtain ⟨ht, hL⟩ := hts t (by simp)
    rw [hfetch] at ht hL
    obtain ⟨hlen, hdata⟩ := ht.used hj
    have hw := hwrite p hok ⟨t.bucket, by simp, u, t.after.priv, hL⟩
    have hfront : ∀ t ∈ fs, _ := fun t ht => hts t (by simp [ht])
    have hback : ∀ t ∈ bs, _ := fun t ht => hts t (by simp [ht])
    obtain ⟨env₂, front, rs₁, hE₂, hs₁, hm₁, hb₁, hx₁, hp₁, hq₁⟩ :=
      sweep_refreshUnused hj hdata halive hw hfront hE₁
    obtain ⟨env₃, back, rs₂, hE₃, hs₂, hm₂, hb₂, hx₂, hp₂, hq₂⟩ :=
      sweep_refreshUnused hj hdata halive hw hback hE₂
    obtain ⟨env₄, b, r, hE₄, hs₃, hm₃⟩ :=
      refreshUnused_mended hj hdata halive hw (hts t (by simp)).1 (hts t (by simp)).2 hE₃
    simp only [stateStorageRead, Storage.fresh, hs, hm, stateStorageRefresh, hlen, hs₁, hs₂, hs₃]
    refine ⟨hE₄, hf₁, .some (rs₁ ++ ⟨t.bucket, t.fetch, b.priv, r⟩ :: rs₂) p ?_ ?_ ?_ rfl ?_ rfl ?_ ?_⟩
    · simp [hb₁, hb₂]
    · simpa [hx₁, hx₂] using hc
    · intro m hmem
      rcases List.mem_append.1 hmem with h | h
      · exact hm₁ m h
      rcases List.mem_cons.1 h with rfl | h
      · exact hm₃
      · exact hm₂ m h
    · simpa using hdata
    · simp [Function.comp_def, hp₁, hp₂]
    · simp [hq₁, hq₂]

theorem stateStorageRead_readonly (d : Driver B) (verify : Verify F) (env : Env) (f : F) (s : Storage B) :
    (stateStorageRead d verify env f s).storage.readonly = s.readonly := by
  simp only [stateStorageRead]
  split <;> rfl

end

end DtUtils
