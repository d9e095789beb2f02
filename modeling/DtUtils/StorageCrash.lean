/-
The storage loops when the power may fail: a load and a save on buckets that
are overwritten in place (`InPlace`), byte after byte, and otherwise keep what
they hold.
-/
import DtUtils.StorageFacts
import DtUtils.Lib.Mixture

namespace DtUtils
open Lib List

/-- A driver whose buckets hold some bytes, deliver them, and overwrite them
in place as far as the power lasts. -/
structure InPlace {B : Type} (d : Driver B) (Holds : B → Bytes → Prop) : Prop where
  read : ∀ {env b m}, env.PowerOnly → Holds b m → ∃ env' b' ret out, d.read env b = (env', b', ret, out) ∧
    env.Follows env' ∧ Holds b' m ∧ (env'.alive = true → ret = 0 ∧ out = some (m, (m.length : Int)))
  write : ∀ {env b m p}, env.PowerOnly → Holds b m → m.length = p.length → ∃ env' b' ret j,
    d.write env b p = (env', b', ret) ∧ env.Follows env' ∧ Holds b' (overwrite p j m) ∧
      (env'.alive = true → ret = 0 ∧ p.length ≤ j) ∧ (env.alive = false → j = 0)

/-- The first of the contents that verifies. -/
def firstVerified (check : Bytes → Int × Int) (ms : List Bytes) : Option Bytes := ms.find? fun m => (check m).1 = 0

theorem firstVerified_pos {check : Bytes → Int × Int} {m : Bytes} (h : (check m).1 = 0) (ms : List Bytes) :
    firstVerified check (m :: ms) = some m := by simp [firstVerified, h]

theorem firstVerified_neg {check : Bytes → Int × Int} {m : Bytes} (h : (check m).1 ≠ 0) (ms : List Bytes) :
    firstVerified check (m :: ms) = firstVerified check ms := by simp [firstVerified, h]

section
variable {B F : Type} {d : Driver B} {Holds : B → Bytes → Prop} {verify : Verify F} {P : F → Prop}
  {check : Bytes → Int × Int}

/-! ## Loading -/

/-- A bucket between the two loops of a load that is still running. -/
def Examined (Holds : B → Bytes → Prop) (check : Bytes → Int × Int) (b : StorageBucket B) (m : Bytes) : Prop :=
  Holds b.priv m ∧ ∃ mark, Probed check (some (m, false)) b mark

/-- One round of the first loop. -/
theorem checkBucket_power (hip : InPlace d Holds) (hj : Judges verify P check) {env : Env} {f : F} {b : B} {m : Bytes}
    (henv : env.PowerOnly) (hf : env.alive = true → P f) (hb : Holds b m) :
    ∃ env' f' c mark, checkBucket d verify (env, f) { priv := b } = ((env', f'), c, mark) ∧ env'.PowerOnly ∧
      (env'.alive = true → env.alive = true ∧ P f') ∧ Holds c.priv m ∧
      (env'.alive = true → Probed check (some (m, false)) c mark) := by
  obtain ⟨env₁, b₁, ret, out, hr, hfol, hb₁, hout⟩ := hip.read henv hb
  by_cases halive : env₁.alive = true
  · have ha := hfol.alive halive
    obtain ⟨rfl, rfl⟩ := hout halive
    have hx : Fetch.Of (some (m, false)) (d.read env b).2.2.1 (d.read env b).2.2.2 := by
      rw [hr]
      exact ⟨rfl, .inr ⟨m, rfl, by simp⟩⟩
    obtain ⟨h1, h2, h3, h4⟩ := checkBucket_probed hj (hf ha) hx
    rw [hr] at h1 h4
    rcases hc : checkBucket d verify (env, f) { priv := b } with ⟨⟨env', f'⟩, c, mark⟩
    rw [hc] at h1 h2 h3 h4
    simp only at h1 h2 h3 h4
    subst h1
    exact ⟨_, _, _, _, rfl, hfol.power henv, fun _ => ⟨ha, h2⟩, h4 ▸ hb₁, fun _ => h3⟩
  · -- Nothing that a stopped process goes on to compute matters.
    have hpow := hfol.power henv
    simp only [checkBucket, hr]
    split
    · exact ⟨_, _, _, _, rfl, hpow, fun h => absurd h halive, hb₁, fun h => absurd h halive⟩
    · split
      · exact ⟨_, _, _, _, rfl, hpow, by simp, hb₁, by simp⟩
      · exact ⟨_, _, _, _, rfl, hpow, fun h => absurd h halive, hb₁, fun h => absurd h halive⟩

theorem sweep_checkBucket_power (hip : InPlace d Holds) (hj : Judges verify P check) {bs : List B} {ms : List Bytes}
    (hb : Forall₂ Holds bs ms) {env : Env} {f : F} (henv : env.PowerOnly) (hf : env.alive = true → P f) :
    ∃ env' f' rs, sweep (checkBucket d verify) (env, f) (bs.map fun b => { priv := b }) = ((env', f'), rs) ∧
      env'.PowerOnly ∧ (env'.alive = true → env.alive = true ∧ P f') ∧ Forall₂ (fun r m => Holds r.1.priv m) rs ms ∧
      (env'.alive = true → Forall₂ (fun r m => Probed check (some (m, false)) r.1 r.2) rs ms) := by
  induction hb generalizing env f with
  | nil => exact ⟨env, f, [], rfl, henv, fun h => ⟨h, hf h⟩, .nil, fun _ => .nil⟩
  | @cons b m bs ms hbm hbs ih =>
    obtain ⟨env₁, f₁, c, mark, hc, hpow, ha, hhold, hprobe⟩ := checkBucket_power hip hj henv hf hbm
    obtain ⟨env₂, f₂, rs, hs, hpow₂, ha₂, hhold₂, hprobe₂⟩ := ih hpow fun h => (ha h).2
    refine ⟨env₂, f₂, (c, mark) :: rs, ?_, hpow₂, fun h => ⟨(ha (ha₂ h).1).1, (ha₂ h).2⟩, .cons hhold hhold₂,
      fun h => .cons (hprobe (ha₂ h).1) (hprobe₂ h)⟩
    rw [map_cons, sweep_cons, hc, hs]

/-- The bucket in use is the first one that verifies. -/
theorem firstMarked_examined {rs : List (StorageBucket B × Bool)} {ms : List Bytes}
    (hh : Forall₂ (fun r m => Holds r.1.priv m) rs ms)
    (hp : Forall₂ (fun r m => Probed check (some (m, false)) r.1 r.2) rs ms) :
    match firstMarked rs with
    | none => firstVerified check ms = none
    | some (front, used, back) => ∃ mf sel mb, ms = mf ++ sel :: mb ∧ firstVerified check ms = some sel ∧
        Forall₂ (Examined Holds check) front mf ∧ Examined Holds check used sel ∧
        Forall₂ (Examined Holds check) back mb := by
  induction hp with
  | nil => rfl
  | @cons r m rs ms hr hrs ih =>
    obtain ⟨b, mark⟩ := r
    cases hh with
    | cons hb hh =>
      cases hr with
      | read hbuf hlen hn hm =>
        have hex : Examined Holds check b m := ⟨hb, mark, .read hbuf hlen hn hm⟩
        cases mark with
        | true =>
          refine ⟨[], m, ms, rfl, firstVerified_pos (hm.1 rfl) ms, .nil, hex, ?_⟩
          rw [forall₂_map_left_iff]
          clear ih
          induction hrs with
          | nil => exact .nil
          | cons h _ ih =>
            cases hh with
            | cons h' hh => exact .cons ⟨h', _, h⟩ (ih hh)
        | false =>
          have hno : (check m).1 ≠ 0 := fun h0 => by simpa using hm.2 h0
          have hskip := firstVerified_neg hno ms
          have ih := ih hh
          rw [firstMarked]
          cases hfm : firstMarked rs with
          | none =>
            rw [hfm] at ih
            exact hskip.trans ih
          | some x =>
            obtain ⟨front, used, back⟩ := x
            rw [hfm] at ih
            obtain ⟨mf, sel, mb, rfl, hv, h1, h2, h3⟩ := ih
            exact ⟨m :: mf, sel, mb, rfl, hskip.trans hv, .cons hex h1, h2, h3⟩

/-- The repair of a bucket that holds `m` from one that holds `sel` is to
bring over all of `sel`. -/
def Whole (check : Bytes → Int × Int) (sel m : Bytes) : Prop :=
  m.length = sel.length ∧ (passedOn check sel = sel ∨ m = sel)

/-- One round of the second loop. -/
theorem refreshUnused_power (hip : InPlace d Holds) (hj : Judges verify P check) {buf sel m : Bytes} {env : Env}
    {b : StorageBucket B} (henv : env.PowerOnly) (hb : Examined Holds check b m) (hw : Whole check sel m)
    (hdata : buf.take (passedOn check sel).length = passedOn check sel) :
    ∃ env' c r j, refreshUnused d buf (passedOn check sel).length env b = (env', c, r) ∧ env'.PowerOnly ∧
      (env'.alive = true → env.alive = true) ∧ Holds c.priv (overwrite sel j m) ∧
      (env'.alive = true → overwrite sel j m = sel) := by
  obtain ⟨hhold, mark, hprobe⟩ := hb
  obtain ⟨hlen, hwhole⟩ := hw
  have hself : ¬ differs check (passedOn check sel) (some (sel, false)) := by
    have h0 := hj.len_nonneg sel
    have hle := hj.len_le sel
    have hl : (passedOn check sel).length = (check sel).2.toNat := by
      rw [passedOn, length_take]
      omega
    simp only [differs, Bool.false_eq_true, ne_eq, false_or, not_or, not_not]
    exact ⟨by omega, by rw [hl, passedOn]⟩
  simp only [refreshUnused, bucketRefresh_probed hj hprobe hdata]
  by_cases hgo : env.alive = true ∧ differs check (passedOn check sel) (some (m, false))
  · rw [if_pos hgo]
    have hdata' : passedOn check sel = sel := by
      rcases hwhole with h | rfl
      · exact h
      · exact absurd hgo.2 hself
    rw [hdata']
    obtain ⟨env', b', ret, j, hwr, hfol, hhold', hok, -⟩ := hip.write henv hhold hlen
    rw [hwr]
    refine ⟨env', _, _, j, rfl, hfol.power henv, hfol.alive, hhold', fun h => ?_⟩
    exact overwrite_of_le hlen (hok h).2
  · rw [if_neg hgo]
    refine ⟨env, _, none, 0, rfl, henv, id, by simpa [overwrite] using hhold, fun halive => ?_⟩
    have hnd : ¬ differs check (passedOn check sel) (some (m, false)) := fun h => hgo ⟨halive, h⟩
    rw [overwrite, take_zero, drop_zero, nil_append]
    rcases hwhole with h | rfl
    · rw [h] at hnd
      simp only [differs, Bool.false_eq_true, ne_eq, false_or, not_or, not_not] at hnd
      rw [← hnd.2, take_of_length_le (by omega)]
    · rfl

theorem sweep_refreshUnused_power (hip : InPlace d Holds) (hj : Judges verify P check) {buf sel : Bytes}
    (hdata : buf.take (passedOn check sel).length = passedOn check sel) {bs : List (StorageBucket B)} {ms : List Bytes}
    (hb : Forall₂ (Examined Holds check) bs ms) (hw : ∀ m ∈ ms, Whole check sel m) {env : Env} (henv : env.PowerOnly) :
    ∃ env' rs ms', sweep (refreshUnused d buf (passedOn check sel).length) env bs = (env', rs) ∧ env'.PowerOnly ∧
      (env'.alive = true → env.alive = true) ∧ Forall₂ (fun r m => Holds r.1.priv m) rs ms' ∧
      Forall₂ (fun m m' => ∃ j, m' = overwrite sel j m) ms ms' ∧ (env'.alive = true → ∀ m ∈ ms', m = sel) := by
  induction hb generalizing env with
  | nil => exact ⟨env, [], [], rfl, henv, id, .nil, .nil, fun _ => by simp⟩
  | @cons b m bs ms hbm _ ih =>
    obtain ⟨env₁, c, r, j, hc, hpow, ha, hhold, hfull⟩ :=
      refreshUnused_power hip hj henv hbm (hw m (by simp)) hdata
    obtain ⟨env₂, rs, ms', hs, hpow₂, ha₂, hhold₂, hover, hfull₂⟩ := ih (fun m h => hw m (by simp [h])) hpow
    refine ⟨env₂, (c, r) :: rs, overwrite sel j m :: ms', ?_, hpow₂, ha ∘ ha₂, .cons hhold hhold₂,
      .cons ⟨j, rfl⟩ hover, fun h m hm => ?_⟩
    · rw [sweep_cons, hc, hs]
    · rcases mem_cons.1 hm with rfl | hm
      · exact hfull (ha₂ h)
      · exact hfull₂ h m hm

/-- What a load makes of buckets that hold `ms`, whose first verified contents
are `sel`: each of them is overwritten with some first bytes of `sel`, and with
all of it if the process survives. -/
structure Repaired (Holds : B → Bytes → Prop) (ms : List Bytes) (sel : Bytes) (r : ReadOutcome B F) : Prop where
  held : ∃ ms', Forall₂ (fun c m => Holds c.priv m) r.storage.buckets ms' ∧
    Forall₂ (fun m m' => ∃ j, m' = overwrite sel j m) ms ms' ∧ (r.env.alive = true → ∀ m ∈ ms', m = sel)
  power : r.env.PowerOnly
  returned : r.env.alive = true → r.ret = 0 ∧ r.buf.take sel.length = sel

theorem stateStorageRead_power (hip : InPlace d Holds) (hj : Judges verify P check) {bs : List B} {ms : List Bytes}
    (hb : Forall₂ Holds bs ms) {sel : Bytes} (hsel : firstVerified check ms = some sel)
    (hw : ∀ m ∈ ms, Whole check sel m) {env : Env} {f : F} (henv : env.PowerOnly) (hf : P f) (readonly : Bool) :
    Repaired Holds ms sel (stateStorageRead d verify env f (.fresh readonly bs)) := by
  obtain ⟨env₁, f₁, rs, hs, hpow, ha, hhold, hprobe⟩ := sweep_checkBucket_power hip hj hb henv fun _ => hf
  have hkept : Forall₂ (fun m m' => ∃ j, m' = overwrite sel j m) ms ms :=
    forall₂_same.2 fun m _ => ⟨0, by simp [overwrite]⟩
  by_cases halive : env₁.alive = true
  · have hfm := firstMarked_examined hhold (hprobe halive)
    cases hm : firstMarked rs with
    | none =>
      rw [hm] at hfm
      rw [hfm] at hsel
      cases hsel
    | some x =>
      obtain ⟨front, used, back⟩ := x
      rw [hm] at hfm
      obtain ⟨mf, sel', mb, rfl, hv, h1, h2, h3⟩ := hfm
      obtain rfl : sel' = sel := by rw [hv] at hsel; exact Option.some.inj hsel
      obtain ⟨-, mark, hu⟩ := id h2
      obtain ⟨hlen, hdata⟩ := hu.used hj
      obtain ⟨env₂, fr, mf', hs₁, hp₁, ha₁, hh₁, ho₁, hf₁⟩ :=
        sweep_refreshUnused_power hip hj hdata h1 (fun m h => hw m (by simp [h])) hpow
      obtain ⟨env₃, bk, mb', hs₂, hp₂, ha₂, hh₂, ho₂, hf₂⟩ :=
        sweep_refreshUnused_power hip hj hdata h3 (fun m h => hw m (by simp [h])) hp₁
      obtain ⟨env₄, c, r, j, hs₃, hp₃, ha₃, hh₃, hf₃⟩ :=
        refreshUnused_power hip hj hp₂ h2 (hw _ (by simp)) hdata
      simp only [stateStorageRead, Storage.fresh, hs, hm, stateStorageRefresh, hlen, hs₁, hs₂, hs₃]
      refine ⟨⟨mf' ++ overwrite sel' j sel' :: mb', ?_, ?_, fun h m hmem => ?_⟩, hp₃, fun _ => ⟨rfl, ?_⟩⟩
      · rw [forall₂_map_left_iff]
        exact rel_append hh₁ (.cons hh₃ hh₂)
      · exact rel_append ho₁ (.cons ⟨j, rfl⟩ ho₂)
      · rcases mem_append.1 hmem with hmem | hmem
        · exact hf₁ (ha₂ (ha₃ h)) m hmem
        · rcases mem_cons.1 hmem with rfl | hmem
          · exact hf₃ h
          · exact hf₂ (ha₃ h) m hmem
      · cases hu with
        | read hbuf => exact hbuf
  · -- A process that was stopped rewrites nothing.
    have hdead : ∀ buf len (cs : List (StorageBucket B)), ∃ rs', sweep (refreshUnused d buf len) env₁ cs = (env₁, rs') ∧
        rs'.map (fun r => r.1.priv) = cs.map StorageBucket.priv := by
      intro buf len cs
      induction cs with
      | nil => exact ⟨[], rfl, rfl⟩
      | cons c cs ih =>
        obtain ⟨rs', h, hp⟩ := ih
        have hc : refreshUnused d buf len env₁ c = (env₁, { c with buf := [], len := 0 }, none) := by
          simp [refreshUnused, bucketRefresh, halive]
        exact ⟨_, by rw [sweep_cons, hc, h], by rw [map_cons, map_cons, hp]⟩
    have hprivs : ∀ cs : List (StorageBucket B), cs.map StorageBucket.priv = rs.map (fun r => r.1.priv) →
        Forall₂ (fun c m => Holds c.priv m) cs ms := by
      intro cs hcs
      have h : Forall₂ Holds (rs.map fun r => r.1.priv) ms := forall₂_map_left_iff.2 hhold
      rw [← hcs] at h
      exact forall₂_map_left_iff.1 h
    cases hm : firstMarked rs with
    | none =>
      simp only [stateStorageRead, Storage.fresh, hs, hm]
      exact ⟨⟨ms, hprivs _ (by simp), hkept, fun h => absurd h halive⟩, hpow, fun h => absurd h halive⟩
    | some x =>
      obtain ⟨front, used, back⟩ := x
      obtain ⟨rest, hrs, hback⟩ := firstMarked_some hm
      obtain ⟨fr, hs₁, hp₁⟩ := hdead used.buf used.len front
      obtain ⟨bk, hs₂, hp₂⟩ := hdead used.buf used.len back
      have hu : refreshUnused d used.buf used.len env₁ used = (env₁, { used with buf := [], len := 0 }, none) := by
        simp [refreshUnused, bucketRefresh, halive]
      simp only [stateStorageRead, Storage.fresh, hs, hm, stateStorageRefresh, hs₁, hs₂, hu]
      refine ⟨⟨ms, hprivs _ ?_, hkept, fun h => absurd h halive⟩, hpow, fun h => absurd h halive⟩
      rw [hrs]
      simp only [map_map, map_append, map_cons, Function.comp_def] at hp₁ hp₂ ⊢
      rw [hp₁, hp₂, hback, map_map]
      rfl

/-! ## Saving -/

/-- What a save of `p` leaves of the contents `ms`: all of them are `p`, or one
is cut and those behind it are as they were. -/
inductive Saved (p : Bytes) : List Bytes → List Bytes → Prop
  | all (ms : List Bytes) : Saved p ms (ms.map fun _ => p)
  | cut (front : List Bytes) (m : Bytes) (back : List Bytes) (j : Nat) :
      Saved p (front ++ m :: back) (front.map (fun _ => p) ++ overwrite p j m :: back)

theorem Saved.ne_nil {p : Bytes} {ms ms' : List Bytes} (h : Saved p ms ms') (hne : ms ≠ []) : ms' ≠ [] := by
  cases h with
  | all => simpa using hne
  | cut => simp

theorem writeBucket_power (hip : InPlace d Holds) {env : Env} {b : StorageBucket B} {m p : Bytes}
    (henv : env.PowerOnly) (hb : Holds b.priv m) (hlen : m.length = p.length) :
    ∃ env' c ret j, writeBucket d p env b = (env', c, ret) ∧ env.Follows env' ∧ Holds c.priv (overwrite p j m) ∧
      (env'.alive = true → ret = 0 ∧ p.length ≤ j) ∧ (env.alive = false → j = 0) := by
  obtain ⟨env', b', ret, j, hw, hfol, hhold, hok, hz⟩ := hip.write henv hb hlen
  exact ⟨env', { b with priv := b' }, ret, j, by simp only [writeBucket, hw], hfol, hhold, hok, hz⟩

/-- The loop of a save in a process that was stopped. -/
theorem sweep_writeBucket_stopped (hip : InPlace d Holds) {bs : List (StorageBucket B)} {ms : List Bytes} {p : Bytes}
    (hb : Forall₂ (fun c m => Holds c.priv m) bs ms) (hlen : ∀ m ∈ ms, m.length = p.length) {env : Env}
    (henv : env.PowerOnly) (hdead : env.alive = false) :
    ∃ env' rs, sweep (writeBucket d p) env bs = (env', rs) ∧ env'.PowerOnly ∧ env'.alive = false ∧
      Forall₂ (fun r m => Holds r.1.priv m) rs ms := by
  induction hb generalizing env with
  | nil => exact ⟨env, [], rfl, henv, hdead, .nil⟩
  | @cons b m bs ms hbm _ ih =>
    obtain ⟨env₁, c, ret, j, hc, hfol, hhold, -, hz⟩ := writeBucket_power hip henv hbm (hlen m (by simp))
    have hdead₁ : env₁.alive = false := by
      by_contra h
      rw [hfol.alive (by simpa using h)] at hdead
      cases hdead
    obtain ⟨env₂, rs, hs, hpow, hdead₂, hholds⟩ := ih (fun m h => hlen m (by simp [h])) (hfol.power henv) hdead₁
    rw [hz hdead, overwrite, take_zero, drop_zero, nil_append] at hhold
    exact ⟨env₂, (c, ret) :: rs, by rw [sweep_cons, hc, hs], hpow, hdead₂, .cons hhold hholds⟩

/-- The loop of a save, by what holds at its end: it is still running, or it
was stopped at some bucket. -/
theorem sweep_writeBucket_power (hip : InPlace d Holds) {bs : List (StorageBucket B)} {ms : List Bytes} {p : Bytes}
    (hb : Forall₂ (fun c m => Holds c.priv m) bs ms) (hlen : ∀ m ∈ ms, m.length = p.length) {env : Env}
    (henv : env.PowerOnly) (halive : env.alive = true) :
    ∃ env' rs ms', sweep (writeBucket d p) env bs = (env', rs) ∧ env'.PowerOnly ∧ Saved p ms ms' ∧
      Forall₂ (fun r m => Holds r.1.priv m) rs ms' ∧
      (env'.alive = true → (∀ m ∈ ms', m = p) ∧ ∀ r ∈ rs, r.2 = 0) := by
  induction hb generalizing env with
  | nil => exact ⟨env, [], [], rfl, henv, .all [], .nil, fun _ => by simp⟩
  | @cons b m bs ms hbm hbs ih =>
    obtain ⟨env₁, c, ret, j, hc, hfol, hhold, hok, -⟩ := writeBucket_power hip henv hbm (hlen m (by simp))
    rw [sweep_cons, hc]
    have hpow := hfol.power henv
    cases ha : env₁.alive with
    | true =>
      obtain ⟨env₂, rs, ms', hs, hpow₂, hsaved, hhold₂, hfull⟩ := ih (fun m h => hlen m (by simp [h])) hpow ha
      obtain ⟨rfl, hj⟩ := hok ha
      rw [overwrite_of_le (hlen m (by simp)) hj] at hhold
      refine ⟨env₂, (c, 0) :: rs, p :: ms', by rw [hs], hpow₂, ?_, .cons hhold hhold₂, fun h => ?_⟩
      · cases hsaved with
        | all => exact .all (m :: ms)
        | cut front m' back i => exact .cut (m :: front) m' back i
      · obtain ⟨h1, h2⟩ := hfull h
        exact ⟨by simpa using h1, fun r hr => (mem_cons.1 hr).elim (fun h => by rw [h]) (h2 r)⟩
    | false =>
      obtain ⟨env₂, rs, hs, hpow₂, hdead, hhold₂⟩ :=
        sweep_writeBucket_stopped hip hbs (fun m h => hlen m (by simp [h])) hpow ha
      exact ⟨env₂, (c, ret) :: rs, overwrite p j m :: ms, by rw [hs], hpow₂, .cut [] m ms j, .cons hhold hhold₂,
        by simp [hdead]⟩

/-- A save in a process that is still running. -/
theorem stateStorageWrite_power (hip : InPlace d Holds) {s : Storage B} {ms : List Bytes} {p : Bytes}
    (hro : s.readonly = false) (hb : Forall₂ (fun c m => Holds c.priv m) s.buckets ms) (hne : ms ≠ [])
    (hlen : ∀ m ∈ ms, m.length = p.length) {env : Env} (henv : env.PowerOnly) (halive : env.alive = true) :
    ∃ env' s' ret rets ms', stateStorageWrite d env s p = (env', s', ret, rets) ∧ env'.PowerOnly ∧
      s'.readonly = false ∧ Saved p ms ms' ∧ Forall₂ (fun c m => Holds c.priv m) s'.buckets ms' ∧
      (env'.alive = true → ret = 0 ∧ ∀ m ∈ ms', m = p) := by
  obtain ⟨env', rs, ms', hs, hpow, hsaved, hhold, hfull⟩ := sweep_writeBucket_power hip hb hlen henv halive
  simp only [stateStorageWrite, hro, Bool.false_eq_true, if_false, hs]
  refine ⟨env', _, _, _, ms', rfl, hpow, rfl, hsaved, forall₂_map_left_iff.2 hhold, fun h => ?_⟩
  obtain ⟨hp, hrets⟩ := hfull h
  refine ⟨if_pos ?_, hp⟩
  have hrs : rs ≠ [] := by
    rintro rfl
    cases hhold
    exact hsaved.ne_nil hne rfl
  obtain ⟨r, hr⟩ := exists_mem_of_ne_nil rs hrs
  refine length_pos_of_mem (a := r.2) (mem_filter.2 ⟨mem_map_of_mem hr, ?_⟩)
  rw [hrets r hr]
  rfl

end

end DtUtils
