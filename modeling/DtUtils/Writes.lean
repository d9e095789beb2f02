/-
The writes that a storage asks its buckets for. A driver is made to keep the
buffers it is given (`Driver.logged`); what a process does with it is what it
does without (`logged_simulation`), so that a log says what was written, when a
bucket's bytes after a write do not.
-/
import DtUtils.Selection
import DtUtils.StateAccess

namespace DtUtils
open Lib

/-! ## Along a projection -/

section
variable {B C F : Type} (φ : C → B)

def StorageBucket.map (b : StorageBucket C) : StorageBucket B := ⟨φ b.priv, b.buf, b.len, b.needsRefresh⟩

def Storage.map (s : Storage C) : Storage B := ⟨s.buckets.map (StorageBucket.map φ), s.readonly⟩

def State.map (st : State F C) : State F B := ⟨st.data, st.format, st.storage.map φ, st.dirty, st.keepPrevContent⟩

def ReadOutcome.map (r : ReadOutcome C F) : ReadOutcome B F :=
  ⟨r.env, r.format, r.storage.map φ, r.ret, r.buf, r.len, r.repairs⟩

/-- `d` does with the images of the buckets what `e` does with the buckets. -/
structure Driver.Projects (e : Driver C) (d : Driver B) : Prop where
  read : ∀ env c, d.read env (φ c) = ((e.read env c).1, φ (e.read env c).2.1, (e.read env c).2.2)
  write : ∀ env c buf, d.write env (φ c) buf =
    ((e.write env c buf).1, φ (e.write env c buf).2.1, (e.write env c buf).2.2)

end

section
variable {B C F : Type} {φ : C → B} {e : Driver C} {d : Driver B} {verify : Verify F}

theorem checkBucket_map (h : e.Projects φ d) (s : Env × F) (b : StorageBucket C) :
    checkBucket d verify s (b.map φ) =
      ((checkBucket e verify s b).1, (checkBucket e verify s b).2.1.map φ, (checkBucket e verify s b).2.2) := by
  obtain ⟨env, f⟩ := s
  have hread := h.read env b.priv
  rcases hr : e.read env b.priv with ⟨env', priv, ret, out⟩
  rw [hr] at hread
  simp only [checkBucket, StorageBucket.map, hread, hr]
  split
  · rfl
  · cases verify f (out.getD (b.buf, b.len)).1 (out.getD (b.buf, b.len)).2 <;> rfl

theorem refreshUnused_map (h : e.Projects φ d) (buf : Bytes) (len : Int) (env : Env) (b : StorageBucket C) :
    refreshUnused d buf len env (b.map φ) =
      ((refreshUnused e buf len env b).1, (refreshUnused e buf len env b).2.1.map φ,
        (refreshUnused e buf len env b).2.2) := by
  have hwrite := h.write env b.priv (buf.take len.toNat)
  simp only [refreshUnused, bucketRefresh, StorageBucket.map, hwrite]
  split <;> rfl

theorem writeBucket_map (h : e.Projects φ d) (buf : Bytes) (env : Env) (b : StorageBucket C) :
    writeBucket d buf env (b.map φ) =
      ((writeBucket e buf env b).1, (writeBucket e buf env b).2.1.map φ, (writeBucket e buf env b).2.2) := by
  simp only [writeBucket, StorageBucket.map, h.write env b.priv buf]

theorem sweep_mapFst {σ R : Type} {f : σ → StorageBucket C → σ × StorageBucket C × R}
    {g : σ → StorageBucket B → σ × StorageBucket B × R}
    (h : ∀ s b, g s (b.map φ) = ((f s b).1, (f s b).2.1.map φ, (f s b).2.2)) (s : σ) (l : List (StorageBucket C)) :
    sweep g s (l.map (StorageBucket.map φ)) =
      ((sweep f s l).1, (sweep f s l).2.map fun x => (x.1.map φ, x.2)) :=
  @sweep_map _ _ _ _ _ f g (StorageBucket.map φ) (fun x => (x.1.map φ, x.2)) h s l

theorem stateStorageRead_map (h : e.Projects φ d) (env : Env) (f : F) (s : Storage C) :
    stateStorageRead d verify env f (s.map φ) = (stateStorageRead e verify env f s).map φ := by
  have hcheck := sweep_mapFst (@checkBucket_map _ _ _ _ _ _ verify h) (env, f) s.buckets
  have hrefresh := fun buf len => sweep_mapFst (refreshUnused_map h buf len)
  have hsel := firstMarked_map (StorageBucket.map φ) (sweep (checkBucket e verify) (env, f) s.buckets).2
  simp only [stateStorageRead, Storage.map, hcheck, hsel]
  cases firstMarked (sweep (checkBucket e verify) (env, f) s.buckets).2 with
  | none => simp [ReadOutcome.map, Storage.map, Function.comp_def]
  | some m =>
    obtain ⟨front, used, back⟩ := m
    simp only [Option.map_some, stateStorageRefresh, hrefresh, refreshUnused_map h,
      show (used.map φ).buf = used.buf from rfl, show (used.map φ).len = used.len from rfl]
    simp [ReadOutcome.map, Storage.map, Function.comp_def]

theorem stateStorageWrite_map (h : e.Projects φ d) (env : Env) (s : Storage C) (buf : Bytes) :
    stateStorageWrite d env (s.map φ) buf =
      ((stateStorageWrite e env s buf).1, (stateStorageWrite e env s buf).2.1.map φ,
        (stateStorageWrite e env s buf).2.2) := by
  obtain ⟨buckets, readonly⟩ := s
  have hwrite := sweep_mapFst (writeBucket_map h buf) env buckets
  cases readonly with
  | true => rfl
  | false => simp [stateStorageWrite, Storage.map, hwrite, Function.comp_def]

end

/-! ## What becomes of the buckets -/

section
variable {B F : Type} {d : Driver B} {verify : Verify F}

/-- `bucket_refresh` rewrites the bucket with these data. -/
def StorageBucket.Stale (b : StorageBucket B) (buf : Bytes) (len : Int) : Prop :=
  b.needsRefresh = true ∨ b.len ≠ len ∨ b.buf.take len.toNat ≠ buf.take len.toNat

instance (b : StorageBucket B) (buf : Bytes) (len : Int) : Decidable (b.Stale buf len) :=
  inferInstanceAs (Decidable (_ ∨ _ ∨ _))

/-- The buckets after the first loop of `state_storage_read`, and which of them
verify. -/
def checkedBuckets (d : Driver B) (verify : Verify F) (env : Env) (f : F) (s : Storage B) :
    List (StorageBucket B × Bool) := (sweep (checkBucket d verify) (env, f) s.buckets).2

/-- What the first loop makes of a bucket. -/
def WasRead (d : Driver B) (b c : StorageBucket B) : Prop := ∃ env, c.priv = (d.read env b.priv).2.1

/-- What the second loop makes of it, with the data in use. -/
def WasRefreshed (d : Driver B) (buf : Bytes) (len : Int) (c b : StorageBucket B) : Prop :=
  b.priv = c.priv ∨ c.Stale buf len ∧ ∃ env, b.priv = (d.write env c.priv (buf.take len.toNat)).2.1

/-- The first loop reads each bucket, and may stop at it. -/
theorem checkBucket_read (env : Env) (f : F) (b : StorageBucket B) :
    (checkBucket d verify (env, f) b).2.1.priv = (d.read env b.priv).2.1 ∧
      ((checkBucket d verify (env, f) b).1.1.alive = true →
        (checkBucket d verify (env, f) b).1.1 = (d.read env b.priv).1) := by
  simp only [checkBucket]
  split
  · exact ⟨rfl, fun _ => rfl⟩
  · split
    · exact ⟨rfl, fun h => by cases h⟩
    · exact ⟨rfl, fun _ => rfl⟩

theorem checkBucket_wasRead (s : Env × F) (b : StorageBucket B) : WasRead d b (checkBucket d verify s b).2.1 :=
  ⟨s.1, (checkBucket_read s.1 s.2 b).1⟩

theorem checkedBuckets_wasRead (env : Env) (f : F) (s : Storage B) :
    List.Forall₂ (WasRead d) s.buckets ((checkedBuckets d verify env f s).map Prod.fst) := by
  rw [List.forall₂_map_right_iff]
  exact (sweep_forall₂ (I := fun _ => True) (fun s b _ _ => ⟨trivial, checkBucket_wasRead s b⟩) trivial).2

theorem refreshUnused_wasRefreshed (buf : Bytes) (len : Int) (env : Env) (c : StorageBucket B) :
    WasRefreshed d buf len c (refreshUnused d buf len env c).2.1 := by
  simp only [refreshUnused, bucketRefresh]
  split
  · next h => exact .inr ⟨h.2, env, rfl⟩
  · exact .inl rfl

theorem stateStorageRead_none {env : Env} {f : F} {s : Storage B}
    (h : firstMarked (checkedBuckets d verify env f s) = none) :
    (stateStorageRead d verify env f s).ret ≠ 0 ∧
      (stateStorageRead d verify env f s).storage.buckets = (checkedBuckets d verify env f s).map Prod.fst := by
  rw [checkedBuckets] at h ⊢
  simp only [stateStorageRead, h]
  exact ⟨by decide, trivial⟩

theorem stateStorageRead_some {env : Env} {f : F} {s : Storage B} {front back : List (StorageBucket B)}
    {used : StorageBucket B} (h : firstMarked (checkedBuckets d verify env f s) = some (front, used, back)) :
    (stateStorageRead d verify env f s).ret = 0 ∧ (stateStorageRead d verify env f s).buf = used.buf ∧
      (stateStorageRead d verify env f s).len = used.len ∧
      List.Forall₂ (WasRefreshed d used.buf used.len) ((checkedBuckets d verify env f s).map Prod.fst)
        (stateStorageRead d verify env f s).storage.buckets := by
  obtain ⟨rest, hchecked, rfl⟩ := firstMarked_some h
  have hlist : (checkedBuckets d verify env f s).map Prod.fst = front ++ used :: rest.map Prod.fst := by
    rw [hchecked]
    simp [Function.comp_def]
  have hall : ∀ (env : Env) (cs : List (StorageBucket B)),
      List.Forall₂ (WasRefreshed d used.buf used.len) cs
        ((sweep (refreshUnused d used.buf used.len) env cs).2.map Prod.fst) := by
    intro env cs
    rw [List.forall₂_map_right_iff]
    exact (sweep_forall₂ (I := fun _ => True)
      (fun env c _ _ => ⟨trivial, refreshUnused_wasRefreshed used.buf used.len env c⟩) trivial).2
  rw [hlist]
  rw [checkedBuckets] at h
  simp only [stateStorageRead, h, stateStorageRefresh]
  refine ⟨trivial, trivial, trivial, ?_⟩
  rw [List.map_append, List.map_cons]
  exact List.rel_append (hall _ front) (.cons (refreshUnused_wasRefreshed _ _ _ _) (hall _ (rest.map Prod.fst)))

theorem stateStorageWrite_readonly {s : Storage B} (h : s.readonly = true) (env : Env) (buf : Bytes) :
    stateStorageWrite d env s buf = (env, s, 0, []) := by
  rw [stateStorageWrite, if_pos h]

theorem stateStorageWrite_length (env : Env) (s : Storage B) (buf : Bytes) :
    List.Forall₂ (fun _ _ => True) s.buckets (stateStorageWrite d env s buf).2.1.buckets := by
  simp only [stateStorageWrite]
  split
  · exact List.forall₂_same.2 fun _ _ => trivial
  · rw [List.forall₂_map_right_iff]
    exact (sweep_forall₂ (I := fun _ => True) (fun env b _ _ => ⟨trivial, trivial⟩) trivial).2

end

/-! ## Calls -/

/-- Whether a call loads, and with `STATE_FLAG_NO_AUTHENTICATION`. -/
def StateCall.noAuth : StateCall → Option Bool
  | .load => some false
  | .loadNoAuth => some true
  | _ => none

/-- What a call makes of the environment and the storage. -/
inductive StorageStep {B F : Type} (fmt : Format F) (d : Backend B) (env : Env) (st : State F B) (call : StateCall) :
    Env → Storage B → Prop
  | loaded {noAuth env'} : call.noAuth = some noAuth →
      (env'.alive = true →
        env' = (stateStorageRead d.toDriver (fmt.verify st.data.magic noAuth) env st.format st.storage).env) →
      StorageStep fmt d env st call env'
        (stateStorageRead d.toDriver (fmt.verify st.data.magic noAuth) env st.format st.storage).storage
  | kept {env'} : call.noAuth = none → env'.faults = env.faults → StorageStep fmt d env st call env' st.storage
  | saved {f : F} {buf : Bytes} : call = .save → st.dirty = true → fmt.pack st.format st.data = some (f, .ok buf) →
      ¬ (st.keepPrevContent = true ∧ st.storage.buckets.any fun b => d.wrongMagic b.priv) →
      StorageStep fmt d env st call (stateStorageWrite d.toDriver env st.storage buf).1
        (stateStorageWrite d.toDriver env st.storage buf).2.1

section
variable {B F : Type} {fmt : Format F} {d : Backend B}

theorem stateDoLoad_storageStep {call : StateCall} {noAuth : Bool} (hcall : call.noAuth = some noAuth) (env : Env)
    (st : State F B) :
    StorageStep fmt d env st call (stateDoLoad fmt d noAuth env st).1
      (stateDoLoad fmt d noAuth env st).2.1.storage := by
  simp only [stateDoLoad]
  split
  · exact .loaded hcall fun _ => rfl
  · simp only [stateUnpack]
    split
    · exact .loaded hcall fun h => by cases h
    · exact .loaded hcall fun _ => rfl

theorem StateCall.exec_storageStep (env : Env) (st : State F B) (call : StateCall) :
    StorageStep fmt d env st call (call.exec fmt d env st).1 (call.exec fmt d env st).2.storage := by
  cases call with
  | load => exact stateDoLoad_storageStep rfl env st
  | loadNoAuth => exact stateDoLoad_storageStep rfl env st
  | get name =>
    simp only [StateCall.exec]
    split <;> exact .kept rfl rfl
  | set name val =>
    simp only [StateCall.exec, stateSetCall]
    split <;> exact .kept rfl rfl
  | save =>
    simp only [StateCall.exec, stateSave]
    split
    · exact .kept rfl rfl
    next hdirty =>
    split
    · exact .kept rfl rfl
    · exact .kept rfl rfl
    · next hpack =>
      simp only [stateSaveBuf]
      split
      · exact .kept rfl rfl
      · next hfree => exact .saved rfl (by simpa using hdirty) hpack hfree

theorem StateCall.exec_keepPrevContent (env : Env) (st : State F B) (call : StateCall) :
    (call.exec fmt d env st).2.keepPrevContent = st.keepPrevContent := by
  have hload : ∀ noAuth, (stateDoLoad fmt d noAuth env st).2.1.keepPrevContent = st.keepPrevContent := by
    intro noAuth
    simp only [stateDoLoad, stateUnpack]
    repeat' split
    all_goals rfl
  cases call with
  | load => exact hload false
  | loadNoAuth => exact hload true
  | get name =>
    simp only [StateCall.exec]
    split <;> rfl
  | set name val =>
    simp only [StateCall.exec, stateSetCall]
    split <;> rfl
  | save =>
    simp only [StateCall.exec, stateSave, stateSaveBuf]
    repeat' split
    all_goals rfl

end

/-! ## Logs -/

section
variable {B F : Type}

/-- The driver also keeps what each bucket was asked to write, newest first. -/
def Driver.logged (d : Driver B) : Driver (B × List Bytes) where
  read env b :=
    let (env, priv, ret, out) := d.read env b.1
    (env, (priv, b.2), ret, out)
  write env b buf :=
    let (env, priv, ret) := d.write env b.1 buf
    (env, (priv, buf :: b.2), ret)

def Backend.logged (d : Backend B) : Backend (B × List Bytes) where
  toDriver := d.toDriver.logged
  wrongMagic b := d.wrongMagic b.1

/-- The storage with logs that are empty. -/
def Storage.logged (s : Storage B) : Storage (B × List Bytes) := s.map fun b => (b, [])

theorem Storage.logged_map (s : Storage B) : s.logged.map Prod.fst = s := by
  simp [Storage.logged, Storage.map, StorageBucket.map, Function.comp_def]

/-- Buckets to which nothing was written yet. -/
def unwritten (bs : List B) : List (B × List Bytes) := bs.map fun b => (b, [])

theorem Driver.logged_projects (d : Driver B) : d.logged.Projects Prod.fst d := ⟨fun _ _ => rfl, fun _ _ _ => rfl⟩

variable {fmt : Format F} {d : Backend B}

theorem stateSave_logged (env : Env) (st : State F (B × List Bytes)) :
    stateSave fmt d env (st.map Prod.fst) =
      ((stateSave fmt d.logged env st).1, (stateSave fmt d.logged env st).2.1.map Prod.fst,
        (stateSave fmt d.logged env st).2.2) := by
  have hwrite := fun buf => stateStorageWrite_map d.toDriver.logged_projects env st.storage buf
  have hmarked : ((st.storage.map Prod.fst).buckets.any fun b => d.wrongMagic b.priv) =
      st.storage.buckets.any fun b => d.logged.wrongMagic b.priv := by
    rw [Storage.map, List.any_map]
    rfl
  simp only [stateSave, show (st.map Prod.fst).dirty = st.dirty from rfl,
    show (st.map Prod.fst).format = st.format from rfl, show (st.map Prod.fst).data = st.data from rfl]
  split
  · rfl
  · cases fmt.pack st.format st.data with
    | none => rfl
    | some r =>
      obtain ⟨f, packed⟩ := r
      cases packed with
      | error e => rfl
      | ok buf =>
        simp only [stateSaveBuf, State.map, hmarked, hwrite]
        split <;> rfl

theorem stateDoLoad_logged (noAuth : Bool) (env : Env) (st : State F (B × List Bytes)) :
    stateDoLoad fmt d noAuth env (st.map Prod.fst) =
      ((stateDoLoad fmt d.logged noAuth env st).1, (stateDoLoad fmt d.logged noAuth env st).2.1.map Prod.fst,
        (stateDoLoad fmt d.logged noAuth env st).2.2) := by
  have hread := @stateStorageRead_map _ _ _ _ _ _ (fmt.verify st.data.magic noAuth) d.toDriver.logged_projects
    env st.format st.storage
  simp only [stateDoLoad, State.map, hread, ReadOutcome.map,
    show d.logged.toDriver = d.toDriver.logged from rfl]
  split
  · rfl
  · simp only [stateUnpack]
    cases fmt.unpack _ _ _ _ <;> rfl

theorem StateCall.exec_logged (env : Env) (st : State F (B × List Bytes)) (call : StateCall) :
    call.exec fmt d env (st.map Prod.fst) =
      ((call.exec fmt d.logged env st).1, (call.exec fmt d.logged env st).2.map Prod.fst) := by
  cases call with
  | load => simp only [StateCall.exec, stateLoad, stateDoLoad_logged]
  | loadNoAuth => simp only [StateCall.exec, stateLoadNoAuth, stateDoLoad_logged]
  | get name =>
    simp only [StateCall.exec, show (st.map Prod.fst).data = st.data from rfl]
    split <;> rfl
  | set name val =>
    simp only [StateCall.exec, stateSetCall, show (st.map Prod.fst).data = st.data from rfl]
    cases stateSetVar st.data.vars name val <;> rfl
  | save => simp only [StateCall.exec, stateSave_logged]

/-- Every run of a process is one with logs. -/
theorem logged_simulation (env : Env) (st : State F (B × List Bytes)) :
    (stateSystem fmt d (env, st.map Prod.fst)).Simulation (stateSystem fmt d.logged (env, st))
      fun s t => s = (t.1, t.2.map Prod.fst) where
  init := by
    intro s hs
    exact ⟨(env, st), rfl, hs⟩
  step := by
    intro s t call s' hst hstep
    obtain ⟨halive, rfl⟩ := hstep
    subst hst
    exact ⟨call.exec fmt d.logged t.1 t.2, ⟨halive, rfl⟩, StateCall.exec_logged _ _ _⟩

end

end DtUtils
