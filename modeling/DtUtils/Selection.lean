/-
Which data `state_storage_read` selects, for any driver and any format: what
the buckets hand to `verify` (`deliveries`), and what calling it on one after
the other comes to (`verifyAll`). Unlike `Judges` this asks nothing of
`verify`, which may keep something of every buffer it is given.
-/
import DtUtils.Buckets

namespace DtUtils
open Lib

/-- What a bucket's read hands to `verify`: a buffer and its length, unless it
failed. -/
abbrev Delivery := Option (Bytes × Int)

section
variable {B F : Type} (d : Driver B) (verify : Verify F)

/-- The reading of one bucket in the first loop of `state_storage_read`. -/
def readBucket (env : Env) (b : StorageBucket B) : Env × StorageBucket B × Delivery :=
  let (env, priv, ret, out) := d.read env b.priv
  let (buf, len) := out.getD (b.buf, b.len)
  (env, { priv := priv, buf := buf, len := len, needsRefresh := b.needsRefresh || decide (ret = -EUCLEAN) },
    if ret ≠ 0 ∧ ret ≠ -EUCLEAN then none else some (buf, len))

/-- What the reads of the buckets hand to `verify`. -/
def deliveries (env : Env) (bs : List (StorageBucket B)) : List Delivery := (sweep (readBucket d) env bs).2.map Prod.snd

theorem deliveries_cons (env : Env) (b : StorageBucket B) (bs : List (StorageBucket B)) :
    deliveries d env (b :: bs) = (readBucket d env b).2.2 :: deliveries d (readBucket d env b).1 bs := rfl

/-- The calls of `verify`: the format's state after the last one, and the
first data that were accepted. `none` if one of them faults. -/
def verifyAll (f : F) : List Delivery → Option (F × Option (Bytes × Int))
  | [] => some (f, none)
  | none :: xs => verifyAll f xs
  | some (buf, len) :: xs => do
    let (f, ret, len) ← verify f buf len
    let (f, later) ← verifyAll f xs
    return (f, if ret = 0 then some (buf, len) else later)

/-- A stopped process stays stopped when it reads. -/
def Driver.ReadStops : Prop := ∀ env b, env.alive = false → (d.read env b).1.alive = false

end

section
variable {B F : Type} {d : Driver B} {verify : Verify F}

theorem checkBucket_eq (env : Env) (f : F) (b : StorageBucket B) :
    checkBucket d verify (env, f) b =
      match readBucket d env b with
      | (env, b, none) => ((env, f), b, false)
      | (env, b, some (buf, len)) =>
        match verify f buf len with
        | none => ((env.crash, f), b, false)
        | some (f, ret, len) => ((env, f), { b with len := len }, decide (ret = 0)) := by
  rcases hr : d.read env b.priv with ⟨env', priv, ret, out⟩
  by_cases hgo : ret ≠ 0 ∧ ret ≠ -EUCLEAN
  · simp only [checkBucket, readBucket, hr, if_pos hgo]
  · cases hv : verify f (out.getD (b.buf, b.len)).1 (out.getD (b.buf, b.len)).2 <;>
      simp only [checkBucket, readBucket, hr, if_neg hgo, hv]

theorem sweep_checkBucket_stopped (hd : d.ReadStops) {bs : List (StorageBucket B)} {env : Env} {f : F}
    (henv : env.alive = false) : (sweep (checkBucket d verify) (env, f) bs).1.1.alive = false := by
  have hstep : ∀ s : Env × F, ∀ b ∈ bs, s.1.alive = false → (checkBucket d verify s b).1.1.alive = false ∧ True := by
    intro s b _ hs
    have hread := hd s.1 b.priv hs
    rcases hr : d.read s.1 b.priv with ⟨env', priv, ret, out⟩
    rw [hr] at hread
    refine ⟨?_, trivial⟩
    simp only [checkBucket, hr]
    split
    · exact hread
    · split
      · rfl
      · exact hread
  exact (sweep_forall₂ (R := fun _ _ => True) hstep henv).1

/-- The first loop of `state_storage_read` comes to what `verifyAll` says. -/
theorem sweep_checkBucket_verifyAll (hd : d.ReadStops) : ∀ (bs : List (StorageBucket B)) (env : Env) (f : F),
    match verifyAll verify f (deliveries d env bs) with
    | none => (sweep (checkBucket d verify) (env, f) bs).1.1.alive = false
    | some (f', selected) =>
      (sweep (checkBucket d verify) (env, f) bs).1 = ((sweep (readBucket d) env bs).1, f') ∧
        (firstMarked (sweep (checkBucket d verify) (env, f) bs).2).map (fun m => (m.2.1.buf, m.2.1.len)) = selected
  | [], env, f => ⟨rfl, rfl⟩
  | b :: bs, env, f => by
    rw [deliveries_cons, sweep_cons, sweep_cons, checkBucket_eq]
    rcases hr : readBucket d env b with ⟨env₁, b₁, out⟩
    cases out with
    | none =>
      have ih := sweep_checkBucket_verifyAll hd bs env₁ f
      simp only [verifyAll]
      split at ih
      · exact ih
      · obtain ⟨h1, h2⟩ := ih
        refine ⟨h1, ?_⟩
        rw [← h2, firstMarked, Option.map_map]
        rfl
    | some out =>
      obtain ⟨buf, len⟩ := out
      have hb₁ : b₁.buf = buf := by
        simp only [readBucket, Prod.mk.injEq] at hr
        obtain ⟨-, rfl, hout⟩ := hr
        split at hout
        · cases hout
        · rw [Option.some.injEq, Prod.ext_iff] at hout
          exact hout.1
      simp only [verifyAll]
      cases hv : verify f buf len with
      | none => exact sweep_checkBucket_stopped hd rfl
      | some v =>
        obtain ⟨f₁, ret, len₁⟩ := v
        have ih := sweep_checkBucket_verifyAll hd bs env₁ f₁
        simp only [Option.bind_eq_bind, Option.bind_some]
        split at ih
        · next hrest =>
          simp only [hrest]
          exact ih
        · next f' selected hrest =>
          simp only [hrest]
          obtain ⟨h1, h2⟩ := ih
          refine ⟨h1, ?_⟩
          by_cases h0 : ret = 0
          · rw [decide_eq_true h0, if_pos h0, firstMarked, Option.map_some, hb₁]
          · rw [decide_eq_false h0, if_neg h0, firstMarked, Option.map_map, ← h2]
            rfl

theorem verifyAll_selected {f f' : F} {xs : List Delivery} {buf : Bytes} {len : Int}
    (h : verifyAll verify f xs = some (f', some (buf, len))) :
    ∃ f₀ f₁ len₀, some (buf, len₀) ∈ xs ∧ verify f₀ buf len₀ = some (f₁, 0, len) := by
  induction xs generalizing f f' with
  | nil => cases h
  | cons x xs ih =>
    cases x with
    | none =>
      obtain ⟨f₀, f₁, len₀, hmem, hv⟩ := ih h
      exact ⟨f₀, f₁, len₀, by simp [hmem], hv⟩
    | some x =>
      obtain ⟨b, n⟩ := x
      simp only [verifyAll, Option.bind_eq_bind, Option.bind_eq_some_iff] at h
      obtain ⟨⟨f₁, ret, n'⟩, hv, ⟨f₂, later⟩, hrest, h⟩ := h
      simp only [Option.pure_def, Option.some.injEq, Prod.mk.injEq] at h
      obtain ⟨-, h⟩ := h
      split at h
      · next h0 =>
        cases h
        subst h0
        exact ⟨f, f₁, n, by simp, hv⟩
      · subst h
        obtain ⟨f₀, f₁, len₀, hmem, hv⟩ := ih hrest
        exact ⟨f₀, f₁, len₀, by simp [hmem], hv⟩

theorem sweep_refreshUnused_stopped {bs : List (StorageBucket B)} {buf : Bytes} {len : Int} {env : Env}
    (henv : env.alive = false) : (sweep (refreshUnused d buf len) env bs).1 = env := by
  have hstep : ∀ e : Env, ∀ b ∈ bs, e = env → (refreshUnused d buf len e b).1 = env ∧ True := by
    intro e b _ he
    subst he
    refine ⟨?_, trivial⟩
    simp only [refreshUnused, bucketRefresh, henv, Bool.false_eq_true, false_and, if_false]
  exact (sweep_forall₂ (R := fun _ _ => True) hstep rfl).1

/-- A process that was stopped in the first loop stays so. -/
theorem stateStorageRead_stopped {env : Env} {f : F} {s : Storage B}
    (h : (sweep (checkBucket d verify) (env, f) s.buckets).1.1.alive = false) :
    (stateStorageRead d verify env f s).env.alive = false := by
  rcases hs : sweep (checkBucket d verify) (env, f) s.buckets with ⟨⟨env₁, f₁⟩, checked⟩
  rw [hs] at h
  simp only [stateStorageRead, hs]
  cases hm : firstMarked checked with
  | none => exact h
  | some m =>
    obtain ⟨front, used, back⟩ := m
    have h1 := @sweep_refreshUnused_stopped B d front used.buf used.len _ h
    have h2 := @sweep_refreshUnused_stopped B d back used.buf used.len _ h
    have h3 := @sweep_refreshUnused_stopped B d [used] used.buf used.len _ h
    rw [sweep_cons, sweep_nil] at h3
    simp only [stateStorageRefresh, h1, h2]
    rw [h3]
    exact h

/-- `state_storage_read` selects the first data that `verify` accepts, and
leaves the format as the last call of `verify` does. -/
theorem stateStorageRead_selects (hd : d.ReadStops) (env : Env) (f : F) (s : Storage B) :
    match verifyAll verify f (deliveries d env s.buckets) with
    | none => (stateStorageRead d verify env f s).env.alive = false
    | some (f', none) =>
      (stateStorageRead d verify env f s).ret = -ENOENT ∧ (stateStorageRead d verify env f s).format = f' ∧
        (stateStorageRead d verify env f s).repairs = []
    | some (f', some (buf, len)) =>
      (stateStorageRead d verify env f s).ret = 0 ∧ (stateStorageRead d verify env f s).format = f' ∧
        (stateStorageRead d verify env f s).buf = buf ∧ (stateStorageRead d verify env f s).len = len := by
  have hsweep := @sweep_checkBucket_verifyAll B F d verify hd s.buckets env f
  rcases hs : sweep (checkBucket d verify) (env, f) s.buckets with ⟨⟨env₁, f₁⟩, checked⟩
  cases hv : verifyAll verify f (deliveries d env s.buckets) with
  | none =>
    rw [hv] at hsweep
    exact stateStorageRead_stopped hsweep
  | some v =>
    obtain ⟨f', selected⟩ := v
    rw [hs, hv] at hsweep
    simp only [stateStorageRead, hs]
    simp only [Prod.mk.injEq] at hsweep
    obtain ⟨⟨-, rfl⟩, hsel⟩ := hsweep
    cases hm : firstMarked checked with
    | none =>
      rw [hm] at hsel
      cases hsel
      exact ⟨rfl, rfl, rfl⟩
    | some m =>
      rw [hm] at hsel
      cases hsel
      exact ⟨rfl, rfl, rfl, rfl⟩

end

/-! ## The bucket types -/

theorem readFull_stopped {env : Env} (h : env.alive = false) (avail : Bytes) : readFull env avail = (env, -1, []) := by
  simp [readFull, h]

theorem directReadFull_stopped {env : Env} (h : env.alive = false) (d : BucketDirect) (pos len : Nat) :
    (directReadFull env d pos len).1 = env := by
  unfold directReadFull
  split
  · rfl
  · rw [readFull_stopped h]

theorem directReadData_stopped {env : Env} (h : env.alive = false) (d : BucketDirect) (pos len : Nat) :
    (directReadData env d pos len).1 = env := by
  have hread := directReadFull_stopped h d pos len
  simp only [directReadData]
  split <;> exact hread

theorem bucketDirectRead_stopped {env : Env} (h : env.alive = false) (d : BucketDirect) :
    (bucketDirectRead env d).1 = env := by
  have hread := directReadFull_stopped h d 0 directMetaSize
  simp only [bucketDirectRead, hread]
  repeat' split
  all_goals first | rfl | exact directReadData_stopped h _ _ _

theorem stateMtdPebRead_stopped {env : Env} (h : env.alive = false) (c : BucketCircular) (suboffset len : Int) :
    (stateMtdPebRead env c suboffset len).1 = env := by
  simp only [stateMtdPebRead, h, Bool.false_eq_true, if_false, readFull_stopped h]
  repeat' split
  all_goals rfl

theorem bucketCircularRead_stopped {env : Env} (h : env.alive = false) (c : BucketCircular) :
    (bucketCircularRead env c).1 = env := by
  unfold bucketCircularRead
  repeat' split
  all_goals first | rfl | rw [bucketCircularFetched_env, stateMtdPebRead_stopped h]

theorem bucketDriver_readStops : bucketDriver.ReadStops := by
  intro env b h
  cases b with
  | direct d =>
    have hread := bucketDirectRead_stopped h d
    simp only [bucketDriver, directDriver, hread, h]
  | circular c =>
    have hread := bucketCircularRead_stopped h c
    simp only [bucketDriver, circularDriver, hread, h]

end DtUtils
