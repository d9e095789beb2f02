/-
Buckets that a process is to leave alone: all of them if the state is
read-only, and those with foreign content under `keep-previous-content`. A
save looks at both, the repair inside a load at neither
(`readonly_never_writes`, `foreign_kept`).
-/
import DtUtils.CircularRuns
import DtUtils.ForeignContent

namespace DtUtils
open Lib

/-! ## The bytes of the storage -/

/-- What the file, from the bucket's offset on, or the eraseblock holds. -/
def Bucket.medium : Bucket → Bytes
  | .direct d => d.area
  | .circular c => c.block

@[simp] theorem directReadData_bucket (env : Env) (d : BucketDirect) (pos len : Nat) :
    (directReadData env d pos len).2.1 = d := by
  simp only [directReadData]
  split <;> rfl

theorem bucketDirectRead_area (env : Env) (d : BucketDirect) : (bucketDirectRead env d).2.1.area = d.area := by
  simp only [bucketDirectRead]
  repeat' split
  all_goals first | rfl | rw [directReadData_bucket]; rfl | rw [directReadData_bucket]

theorem bucketCircularRead_block (env : Env) (c : BucketCircular) : (bucketCircularRead env c).2.1.block = c.block := by
  simp only [bucketCircularRead]
  repeat' split
  all_goals first | rfl | rw [bucketCircularFetched_bucket]

/-- Two buckets of one type with the same bytes. -/
inductive Bucket.SameBytes : Bucket → Bucket → Prop
  | direct {d d' : BucketDirect} : d'.area = d.area → SameBytes (.direct d) (.direct d')
  | circular {c c' : BucketCircular} : c'.block = c.block → SameBytes (.circular c) (.circular c')

theorem Bucket.SameBytes.refl (b : Bucket) : b.SameBytes b := by
  cases b with
  | direct => exact .direct rfl
  | circular => exact .circular rfl

theorem Bucket.SameBytes.trans {a b c : Bucket} (h : a.SameBytes b) (h' : b.SameBytes c) : a.SameBytes c := by
  cases h with
  | direct h =>
    cases h' with
    | direct h' => exact .direct (h'.trans h)
  | circular h =>
    cases h' with
    | circular h' => exact .circular (h'.trans h)

theorem Bucket.SameBytes.medium {b b' : Bucket} (h : b.SameBytes b') : b'.medium = b.medium := by
  cases h with
  | direct h => exact h
  | circular h => exact h

theorem bucketRead_sameBytes (env : Env) (b : Bucket) : b.SameBytes (bucketDriver.read env b).2.1 := by
  cases b with
  | direct d => exact .direct (bucketDirectRead_area env d)
  | circular c => exact .circular (bucketCircularRead_block env c)

theorem bucketCircularInitScan_block (c : BucketCircular) (x : Env × Int × Bytes) :
    (bucketCircularInitScan c x).2.1.block = c.block := by
  obtain ⟨env, ret, buf⟩ := x
  simp only [bucketCircularInitScan]
  repeat' split
  all_goals rfl

theorem bucketCircularCreated_some {env : Env} {c : BucketCircular} {r : Env × BucketCircular × Int}
    (h : bucketCircularCreated r = (env, some c)) : c = r.2.1 := by
  obtain ⟨env₁, c₁, ret⟩ := r
  simp only [bucketCircularCreated] at h
  split at h <;> cases h
  rfl

theorem bucketCircularCreate_block {env env' : Env} {g : Geometry} {block : Bytes} {c : BucketCircular}
    (h : bucketCircularCreate env g block = (env', some c)) : c.block = block := by
  simp only [bucketCircularCreate] at h
  split at h
  · cases h
  · cases h
  · rw [bucketCircularCreated_some h, bucketCircularInit, bucketCircularInitScan_block]

theorem bucketReopen_medium {env env' : Env} {b b' : Bucket} (h : bucketReopen env b = (env', some b')) :
    b'.medium = b.medium := by
  cases b with
  | direct d =>
    cases h
    rfl
  | circular c =>
    rcases hc : bucketCircularCreate env c.geo c.block with ⟨env₁, o⟩
    simp only [bucketReopen, hc, Prod.mk.injEq, Option.map_eq_some_iff] at h
    obtain ⟨-, c', rfl, rfl⟩ := h
    exact bucketCircularCreate_block hc

theorem openBuckets_medium {env env' : Env} {bs opened : List Bucket} (h : openBuckets env bs = (env', opened)) :
    ∀ b ∈ opened, ∃ b₀ ∈ bs, b.medium = b₀.medium := by
  intro b hb
  have hall := (sweep_forall₂ (f := bucketReopen) (I := fun _ => True)
    (R := fun b₀ (o : Option Bucket) => ∀ b, o = some b → b.medium = b₀.medium) (l := bs) (s := env)
    (fun env b₀ _ _ => ⟨trivial, fun b hb => bucketReopen_medium (Prod.ext rfl hb)⟩) trivial).2
  simp only [openBuckets, Prod.mk.injEq] at h
  obtain ⟨-, rfl⟩ := h
  obtain ⟨o, ho, hsome⟩ := List.mem_filterMap.1 hb
  obtain ⟨b₀, hb₀, hmedium⟩ := forall₂_mem_right hall ho
  exact ⟨b₀, hb₀, hmedium b hsome⟩

/-! ## Loads that spare buckets -/

/-- Those of the opened buckets that `P` picks out: nothing was written to
them, and their bytes are as they were. -/
def Untouched (P : Bucket → Prop) (opened : List Bucket) (bs : List (StorageBucket (Bucket × List Bytes))) : Prop :=
  List.Forall₂ (fun b₀ b => P b₀ → b.priv.2 = [] ∧ b₀.SameBytes b.priv.1) opened bs

/-- No bucket verifies, or none of those that `P` picks out is stale next to the
first that does: each was read, not reported unclean, and its data have the
same length and bytes. -/
def Spares {F : Type} (P : Bucket → Prop) (opened : List Bucket) (verify : Verify F) (env : Env) (f : F)
    (s : Storage (Bucket × List Bytes)) : Prop :=
  ∀ front used back, firstMarked (checkedBuckets bucketDriver.logged verify env f s) = some (front, used, back) →
    List.Forall₂ (fun b₀ c => P b₀ → ¬ StorageBucket.Stale c used.buf used.len) opened
      ((checkedBuckets bucketDriver.logged verify env f s).map Prod.fst)

section
variable {F : Type} {P : Bucket → Prop} {opened : List Bucket} {verify : Verify F} {env : Env} {f : F}
  {s : Storage (Bucket × List Bytes)}

theorem Untouched.start (opened : List Bucket) :
    Untouched P opened ((unwritten opened).map fun b => { priv := b }) := by
  simp only [unwritten, List.map_map]
  exact List.forall₂_map_right_iff.2 (List.forall₂_same.2 fun b _ _ => ⟨rfl, .refl b⟩)

theorem Untouched.read (h : Untouched P opened s.buckets) :
    Untouched P opened ((checkedBuckets bucketDriver.logged verify env f s).map Prod.fst) := by
  refine forall₂_chain ?_ h (checkedBuckets_wasRead env f s)
  intro b₀ b c hb hread hP
  obtain ⟨env', hpriv⟩ := hread
  obtain ⟨hlog, hbytes⟩ := hb hP
  rw [hpriv]
  exact ⟨hlog, hbytes.trans (bucketRead_sameBytes env' b.priv.1)⟩

/-- A load spares all buckets if none of them is stale. -/
theorem Spares.of_fresh (hlength : opened.length = s.buckets.length)
    (hfresh : ∀ m ∈ firstMarked (checkedBuckets bucketDriver.logged verify env f s),
      ∀ c ∈ checkedBuckets bucketDriver.logged verify env f s, ¬ StorageBucket.Stale c.1 m.2.1.buf m.2.1.len) :
    Spares P opened verify env f s := by
  intro front used back hm
  have hsame : opened.length = ((checkedBuckets bucketDriver.logged verify env f s).map Prod.fst).length :=
    hlength.trans (checkedBuckets_wasRead env f s).length_eq
  refine List.forall₂_iff_zip.2 ⟨hsame, fun {b₀ c} hzip _ => ?_⟩
  obtain ⟨-, hc⟩ := List.of_mem_zip hzip
  obtain ⟨c', hc', rfl⟩ := List.mem_map.1 hc
  exact hfresh _ hm c' hc'

theorem Untouched.load (h : Untouched P opened s.buckets) (hspares : Spares P opened verify env f s) :
    Untouched P opened (stateStorageRead bucketDriver.logged verify env f s).storage.buckets := by
  have hread : Untouched P opened ((checkedBuckets bucketDriver.logged verify env f s).map Prod.fst) := h.read
  cases hm : firstMarked (checkedBuckets bucketDriver.logged verify env f s) with
  | none =>
    rw [(stateStorageRead_none hm).2]
    exact hread
  | some m =>
    obtain ⟨front, used, back⟩ := m
    obtain ⟨-, -, -, hrefreshed⟩ := stateStorageRead_some hm
    have hboth := List.Forall₂.mp (fun _ _ hb hfresh => And.intro hb hfresh) hread (hspares front used back hm)
    refine forall₂_chain ?_ hboth hrefreshed
    intro b₀ c b hc hb hP
    rcases hb with hsame | ⟨hstale, -⟩
    · rw [hsame]
      exact hc.1 hP
    · exact absurd hstale (hc.2 hP)

end

/-! ## Read-only states -/

/-- Every load spares every bucket. -/
def NothingStale {F : Type} (fmt : Format F) (opened : List Bucket) (s : Env × State F (Bucket × List Bytes))
    (call : StateCall) : Prop :=
  ∀ noAuth, call.noAuth = some noAuth →
    Spares (fun _ => True) opened (fmt.verify s.2.data.magic noAuth) s.1 s.2.format s.2.storage

/-- **A read-only state writes nothing** in a run whose loads find nothing that
is stale. -/
theorem readonly_never_writes {F : Type} {fmt : Format F} {env env' : Env} {bs opened : List Bucket} {f : F}
    {data : StateData} {calls : List StateCall} {s : Env × State F (Bucket × List Bytes)}
    (hopen : openBuckets env bs = (env', opened))
    (hrun : (stateSystem fmt bucketBackend.logged (env', stateNew f true data (unwritten opened))).RunIf
      (fun _ s call => NothingStale fmt opened s call) calls s) :
    (∀ b ∈ s.2.storage.buckets, b.priv.2 = []) ∧
      s.2.storage.buckets.map (fun b => b.priv.1.medium) = opened.map Bucket.medium ∧
      ∀ b ∈ opened, ∃ b₀ ∈ bs, b.medium = b₀.medium := by
  have hinv : s.2.storage.readonly = true ∧ Untouched (fun _ => True) opened s.2.storage.buckets := by
    refine hrun.invariant (I := fun _ s => s.2.storage.readonly = true ∧
      Untouched (fun _ => True) opened s.2.storage.buckets) ?_ ?_
    · intro s hs
      subst hs
      refine ⟨rfl, ?_⟩
      exact Untouched.start opened
    · intro calls s call s' hI hspares hstep
      obtain ⟨-, rfl⟩ := hstep
      obtain ⟨hro, huntouched⟩ := hI
      have hstorage := @StateCall.exec_storageStep _ _ fmt bucketBackend.logged s.1 s.2 call
      generalize (call.exec fmt bucketBackend.logged s.1 s.2).1 = env₁ at hstorage
      generalize (call.exec fmt bucketBackend.logged s.1 s.2).2.storage = storage at hstorage ⊢
      cases hstorage with
      | loaded hcall => exact ⟨(stateStorageRead_readonly _ _ _ _ _).trans hro, huntouched.load (hspares _ hcall)⟩
      | kept => exact ⟨hro, huntouched⟩
      | @saved _ buf =>
        rw [stateStorageWrite_readonly hro]
        exact ⟨hro, huntouched⟩
  obtain ⟨-, huntouched⟩ := hinv
  refine ⟨fun b hb => ?_, ?_, openBuckets_medium hopen⟩
  · obtain ⟨b₀, -, h⟩ := forall₂_mem_right huntouched hb
    exact (h trivial).1
  · generalize s.2.storage.buckets = final at huntouched
    clear hopen hrun
    induction huntouched with
    | nil => rfl
    | cons h _ ih => rw [List.map_cons, List.map_cons, (h trivial).2.medium, ih]

/-- An eraseblock with one flag, and an erased one. -/
def flagBlock : Bucket := .circular ⟨.small, 0, 0, false, circularRecord (rawFlag 1 1) 32⟩

def erasedBlock : Bucket := .circular ⟨.small, 0, 0, false, List.replicate 32 0xff⟩

/-- What a process has after these calls, with the buckets it opened. -/
def loggedRun (readonly : Bool) (bs : List Bucket) (calls : List StateCall) (s : StateData) :
    List Bucket × Env × State RawFormat (Bucket × List Bytes) :=
  let (env, opened) := openBuckets .ok bs
  (opened, calls.foldl (fun t call => call.exec rawFormat bucketBackend.logged t.1 t.2)
    (env, stateNew (backendFormatRawCreate none) readonly s (unwritten opened)))

/-- Two eraseblocks with the same flag are loaded and not written. -/
theorem readonly_never_writes_healthy : ∃ s env opened t, stateFromNodeCreate oneFlagNode = some (s, 0) ∧
    openBuckets .ok [flagBlock, flagBlock] = (env, opened) ∧ t.2.storage.buckets.length = 2 ∧
    (stateSystem rawFormat bucketBackend.logged
      (env, stateNew (backendFormatRawCreate none) true s (unwritten opened))).Run [.save, .load] t ∧
    ∀ b ∈ t.2.storage.buckets, b.priv.2 = [] := by
  obtain ⟨s, hs⟩ : ∃ s, acceptedState oneFlagNode = some s := Option.isSome_iff_exists.1 (by decide +kernel)
  have hmagic : (acceptedState oneFlagNode).map (·.magic) = some 1 := by decide +kernel
  have heval : (acceptedState oneFlagNode).map (fun s =>
      let r := loggedRun true [flagBlock, flagBlock] [.load] s
      ((openBuckets .ok [flagBlock, flagBlock]).1.alive, r.2.1.alive,
        (loggedRun true [flagBlock, flagBlock] [.load, .save] s).2.2.storage.buckets.length)) =
          some (true, true, 2) := by
    decide +kernel
  have hfresh : ∀ noAuth, ∀ m ∈ firstMarked (checkedBuckets bucketDriver.logged (rawFormat.verify 1 noAuth)
        (openBuckets .ok [flagBlock, flagBlock]).1 (backendFormatRawCreate none)
        (.fresh true (unwritten (openBuckets .ok [flagBlock, flagBlock]).2))),
      ∀ c ∈ checkedBuckets bucketDriver.logged (rawFormat.verify 1 noAuth)
          (openBuckets .ok [flagBlock, flagBlock]).1 (backendFormatRawCreate none)
          (.fresh true (unwritten (openBuckets .ok [flagBlock, flagBlock]).2)),
        ¬ StorageBucket.Stale c.1 m.2.1.buf m.2.1.len := by
    decide +kernel
  rw [hs, Option.map_some, Option.some.injEq] at hmagic heval
  rcases hopen : openBuckets .ok [flagBlock, flagBlock] with ⟨env, opened⟩
  simp only [loggedRun, hopen, List.foldl_cons, List.foldl_nil, Prod.mk.injEq] at heval hfresh
  obtain ⟨halive, halive₁, hcount⟩ := heval
  have hstart : NothingStale rawFormat opened
      (env, stateNew (backendFormatRawCreate none) true s (unwritten opened)) .load := by
    intro noAuth _
    refine Spares.of_fresh ?_ ?_
    · simp [stateNew, Storage.fresh, unwritten]
    · simp only [stateNew, hmagic]
      exact hfresh noAuth
  have hload := System.RunIf.step (S := stateSystem rawFormat bucketBackend.logged
    (env, stateNew (backendFormatRawCreate none) true s (unwritten opened)))
    (G := fun _ s call => NothingStale rawFormat opened s call) (.init rfl) hstart ⟨halive, rfl⟩
  have hsave := hload.step (l := .save) (fun _ hno => by cases hno) ⟨halive₁, rfl⟩
  -- The state behind the run is not to be unfolded from here on.
  generalize StateCall.exec rawFormat bucketBackend.logged _ _ .save = t at hsave hcount
  exact ⟨s, env, opened, t, acceptedState_eq hs, rfl, hcount, hsave.run, (readonly_never_writes hopen hsave).1⟩

/-- A load of a read-only state writes the flag to the erased block. -/
theorem readonly_load_writes : ∃ s env opened t, stateFromNodeCreate oneFlagNode = some (s, 0) ∧
    openBuckets .ok [flagBlock, erasedBlock] = (env, opened) ∧
    (stateSystem rawFormat bucketBackend.logged
      (env, stateNew (backendFormatRawCreate none) true s (unwritten opened))).Run [.load] t ∧
    t.2.storage.buckets.map (fun b => b.priv.2) = [[], [rawFlag 1 1]] ∧
    t.2.storage.buckets.map (fun b => b.priv.1.medium) ≠ opened.map Bucket.medium := by
  obtain ⟨s, hs⟩ : ∃ s, acceptedState oneFlagNode = some s := Option.isSome_iff_exists.1 (by decide +kernel)
  have heval : (acceptedState oneFlagNode).map (fun s =>
      let r := loggedRun true [flagBlock, erasedBlock] [.load] s
      ((openBuckets .ok [flagBlock, erasedBlock]).1.alive, r.2.2.storage.buckets.map (fun b => b.priv.2),
        decide (r.2.2.storage.buckets.map (fun b => b.priv.1.medium) = r.1.map Bucket.medium))) =
    some (true, [[], [rawFlag 1 1]], false) := by
    decide +kernel
  rw [hs, Option.map_some, Option.some.injEq] at heval
  rcases hopen : openBuckets .ok [flagBlock, erasedBlock] with ⟨env, opened⟩
  simp only [loggedRun, hopen, List.foldl_cons, List.foldl_nil, Prod.mk.injEq] at heval
  obtain ⟨halive, hlogs, hmedia⟩ := heval
  have hrun := @stateSystem_step _ _ rawFormat bucketBackend.logged _
    (env, stateNew (backendFormatRawCreate none) true s (unwritten opened)) [] (.init rfl) halive .load
  -- The state behind the run is not to be unfolded from here on.
  generalize StateCall.exec rawFormat bucketBackend.logged env
    (stateNew (backendFormatRawCreate none) true s (unwritten opened)) .load = t at hlogs hmedia hrun
  exact ⟨s, env, opened, t, acceptedState_eq hs, rfl, hrun, hlogs, of_decide_eq_false hmedia⟩

/-! ## Foreign buckets -/

/-- A magic word that is neither the bucket's nor erased nor zero. -/
def ForeignMagic (own magic : Nat) : Prop := magic ≠ own ∧ magic ≠ 0xffffffff ∧ magic ≠ 0

/-- The bytes are those of something else. -/
def Bucket.Foreign : Bucket → Prop
  | .direct d => directMetaSize ≤ d.area.length ∧ ForeignMagic directMagic (leNat (d.area.take 4))
  | .circular c => usedEnd c.geo.writesize c.block ≠ 0 ∧
    ForeignMagic circularMagic (leNat (slice (usedEnd c.geo.writesize c.block - 8) 4 c.block))

def Bucket.IsCircular : Bucket → Prop
  | .direct _ => False
  | .circular _ => True

/-- The device holds the whole eraseblock. -/
def Bucket.Whole : Bucket → Prop
  | .direct _ => True
  | .circular c => c.block.length = c.geo.erasesize

theorem bucketDirectRead_cleanEnv {env : Env} (henv : env.Clean) (d : BucketDirect) :
    (bucketDirectRead env d).1.Clean := by
  have hfull : ∀ {env : Env}, env.Clean → ∀ (d : BucketDirect) (pos len : Nat),
      (directReadFull env d pos len).1.Clean := by
    intro env henv d pos len
    simp only [directReadFull]
    split
    · exact henv
    · rw [readFull_clean henv]
      exact henv.pop
  have hdata : ∀ {env : Env}, env.Clean → ∀ (d : BucketDirect) (pos len : Nat),
      (directReadData env d pos len).1.Clean := by
    intro env henv d pos len
    simp only [directReadData]
    split <;> exact hfull henv d pos len
  have hmeta := hfull henv d 0 directMetaSize
  simp only [bucketDirectRead]
  repeat' split
  all_goals first | exact hmeta | exact hdata hmeta _ _ _

theorem stateMtdPebRead_cleanEnv {env : Env} (henv : env.Clean) (c : BucketCircular) (suboffset len : Int) :
    (stateMtdPebRead env c suboffset len).1.Clean := by
  simp only [stateMtdPebRead]
  split
  · exact henv
  · rw [if_pos henv.1, readFull_clean (henv.log _)]
    split <;> exact (henv.log _).pop

theorem bucketCircularRead_cleanEnv {env : Env} (henv : env.Clean) (c : BucketCircular) :
    (bucketCircularRead env c).1.Clean := by
  simp only [bucketCircularRead]
  repeat' split
  all_goals first | exact henv | rw [bucketCircularFetched_env]; exact stateMtdPebRead_cleanEnv henv _ _ _

theorem bucketRead_cleanEnv {env : Env} (henv : env.Clean) (b : Bucket) : (bucketDriver.read env b).1.Clean := by
  cases b with
  | direct d => exact bucketDirectRead_cleanEnv henv d
  | circular c => exact bucketCircularRead_cleanEnv henv c

theorem bucketRead_marked (env : Env) {b : Bucket} (h : bucketBackend.wrongMagic b = true) :
    bucketBackend.wrongMagic (bucketDriver.read env b).2.1 = true := by
  cases b with
  | direct d =>
    have hnote : ∀ m, (d.noteMagic m).wrongMagic = true := by
      intro m
      simp only [BucketDirect.noteMagic]
      split
      · rfl
      · exact h
    change (bucketDirectRead env d).2.1.wrongMagic = true
    simp only [bucketDirectRead]
    repeat' split
    all_goals
      first
      | exact h
      | exact hnote _
      | rw [directReadData_bucket]
        exact h
      | rw [directReadData_bucket]
        exact hnote _
  | circular c =>
    change (bucketCircularRead env c).2.1.wrongMagic = true
    simp only [bucketCircularRead]
    repeat' split
    all_goals first | exact h | rw [bucketCircularFetched_bucket]; exact h

theorem bucketDirectRead_marks {env : Env} (henv : env.Clean) {d : BucketDirect} (h : (Bucket.direct d).Foreign) :
    (bucketDirectRead env d).2.1.wrongMagic = true := by
  obtain ⟨hlen, hown, hff, hzero⟩ := h
  have hmeta : directReadFull env d 0 directMetaSize = (env.pop, 8, d.area.take directMetaSize) := by
    have htake : (d.area.take directMetaSize).length = 8 := by
      rw [List.length_take, directMetaSize] at *
      omega
    rw [directReadFull, if_neg (by decide), slice_zero_left, readFull_clean henv, htake]
    simp [cInt_of_lt]
  have hheader : (directReadMeta env.pop (d.area.take directMetaSize)).take 4 = d.area.take 4 := by
    rw [directReadMeta, List.take_append_of_le_length (by rw [List.length_take, directMetaSize] at *; omega),
      List.take_take]
    rfl
  have hnote : (d.noteMagic (leNat (d.area.take 4))).wrongMagic = true := by
    rw [BucketDirect.noteMagic, if_pos ⟨hff, hzero⟩]
  simp only [bucketDirectRead, hmeta, hheader]
  rw [if_neg (by decide), if_neg hown]
  split
  · rw [directReadData_bucket]
    exact hnote
  · exact hnote

/-- Opening a bucket on a device without faults marks a foreign eraseblock. -/
theorem bucketReopen_marks {env env' : Env} {b : Bucket} {o : Option Bucket} (henv : env.Clean) (hb : b.Whole)
    (h : bucketReopen env b = (env', o)) :
    env'.Clean ∧ ∀ b', o = some b' → b'.IsCircular → b'.Foreign → bucketBackend.wrongMagic b' = true := by
  cases b with
  | direct d =>
    cases h
    exact ⟨henv, fun b' hb' => by cases hb'; exact fun hcirc => hcirc.elim⟩
  | circular c =>
    rcases hc : bucketCircularCreate env c.geo c.block with ⟨env₁, o₁⟩
    simp only [bucketReopen, hc, Prod.mk.injEq] at h
    obtain ⟨rfl, rfl⟩ := h
    constructor
    · have hread := stateMtdPebRead_cleanEnv henv.pop ⟨c.geo, 0, 0, false, c.block⟩ 0 c.geo.erasesize
      have hscan : ∀ (c : BucketCircular) (x : Env × Int × Bytes), (bucketCircularInitScan c x).1 = x.1 := by
        intro c x
        simp only [bucketCircularInitScan]
        repeat' split
        all_goals rfl
      have hcreated : ∀ r, (bucketCircularCreated r).1 = r.1 := by
        intro r
        simp only [bucketCircularCreated]
        split <;> rfl
      have henv₁ := congrArg Prod.fst hc
      simp only [bucketCircularCreate, henv.next, hcreated, bucketCircularInit, hscan] at henv₁
      rw [← henv₁]
      exact hread
    · intro b' hb' _ hforeign
      obtain ⟨c', hc', rfl⟩ := Option.map_eq_some_iff.1 hb'
      subst hc'
      obtain ⟨hready, hgeo, hblock, -⟩ := (bucketCircularCreate_cases hb hc).2 c' rfl
      have hint := hready.int
      rw [hgeo] at hint
      have hclean := bucketCircularCreate_clean henv hint hb
      rw [hc] at hclean
      have hscanned := Option.some.inj (congrArg Prod.snd hclean)
      obtain ⟨hused, hmagic⟩ := hforeign
      rw [hgeo, hblock] at hused hmagic
      rw [hscanned]
      exact if_pos ⟨hused, decide_eq_true hmagic⟩

section
variable {F : Type} {verify : Verify F}

/-- Once all buckets were read, the foreign files are marked. -/
theorem sweep_checkBucket_marks {bs : List (StorageBucket (Bucket × List Bytes))} {env : Env} {f : F}
    (henv : env.Clean) (halive : (sweep (checkBucket bucketDriver.logged verify) (env, f) bs).1.1.alive = true) :
    List.Forall₂ (fun b c => ∀ d, b.priv.1 = .direct d → (Bucket.direct d).Foreign →
        bucketBackend.wrongMagic c.priv.1 = true) bs
      ((sweep (checkBucket bucketDriver.logged verify) (env, f) bs).2.map Prod.fst) := by
  induction bs generalizing env f with
  | nil => exact .nil
  | cons b bs ih =>
    rw [sweep_cons] at halive ⊢
    obtain ⟨hpriv, hread⟩ := @checkBucket_read _ _ bucketDriver.logged verify env f b
    rcases hc : checkBucket bucketDriver.logged verify (env, f) b with ⟨⟨env₁, f₁⟩, c, m⟩
    rw [hc] at halive hpriv hread
    have halive₁ : env₁.alive = true := by
      by_contra hdead
      have hstopped := @sweep_checkBucket_stopped _ _ bucketDriver.logged verify
        (fun env b h => bucketDriver_readStops env b.1 h) bs env₁ f₁ (Bool.not_eq_true _ ▸ hdead)
      rw [hstopped] at halive
      cases halive
    have henv₁ : env₁.Clean := by
      have hsame : env₁ = (bucketDriver.read env b.priv.1).1 := hread halive₁
      rw [hsame]
      exact bucketRead_cleanEnv henv b.priv.1
    refine .cons (fun d hd hforeign => ?_) (ih henv₁ halive)
    have hbucket : c.priv.1 = (bucketDriver.read env b.priv.1).2.1 := congrArg Prod.fst hpriv
    rw [hbucket, hd]
    exact bucketDirectRead_marks henv hforeign

end

/-- Whether a bucket's magic was looked at: a circular bucket's when it was
opened, a direct one's in a load. -/
def Bucket.Examined (calls : List StateCall) : Bucket → Prop
  | .direct _ => ∃ call ∈ calls, call.noAuth ≠ none
  | .circular _ => True

/-- A load spares the foreign buckets, and something is saved only when one of
them was examined. -/
structure SparesForeign {F : Type} (fmt : Format F) (opened : List Bucket) (calls : List StateCall)
    (s : Env × State F (Bucket × List Bytes)) (call : StateCall) : Prop where
  load : ∀ noAuth, call.noAuth = some noAuth →
    Spares Bucket.Foreign opened (fmt.verify s.2.data.magic noAuth) s.1 s.2.format s.2.storage
  save : call = .save → s.2.dirty = true → s.2.storage.readonly = false →
    ∀ f buf, fmt.pack s.2.format s.2.data = some (f, .ok buf) →
      ∀ b ∈ opened, b.Foreign → ∃ b' ∈ opened, b'.Foreign ∧ b'.Examined calls

/-- What holds in a run whose calls spare the foreign buckets. -/
structure ForeignKept {F : Type} (opened : List Bucket) (calls : List StateCall)
    (s : Env × State F (Bucket × List Bytes)) : Prop where
  keep : s.2.keepPrevContent = true
  untouched : Untouched Bucket.Foreign opened s.2.storage.buckets
  fresh : (∃ b ∈ opened, b.Foreign) → (∀ call ∈ calls, call.noAuth = none) → s.1.faults = []
  marked : s.1.alive = true → List.Forall₂ (fun b₀ b => b₀.Foreign → b₀.Examined calls →
    bucketBackend.wrongMagic b.priv.1 = true) opened s.2.storage.buckets

section
variable {F : Type} {fmt : Format F} {opened : List Bucket} {calls : List StateCall}
  {s : Env × State F (Bucket × List Bytes)}

theorem Bucket.Examined.of_cons {call : StateCall} (hcall : call.noAuth = none) {b : Bucket}
    (h : b.Examined (call :: calls)) : b.Examined calls := by
  cases b with
  | circular c => trivial
  | direct d =>
    obtain ⟨call', hmem, hload⟩ := h
    rcases List.mem_cons.1 hmem with rfl | hmem
    · exact absurd hcall hload
    · exact ⟨call', hmem, hload⟩

/-- The first loop of a load marks the foreign buckets, if it is not stopped. -/
theorem ForeignKept.checked_marked (h : ForeignKept opened calls s) (halive : s.1.alive = true) {verify : Verify F}
    (hloop : (sweep (checkBucket bucketDriver.logged verify) (s.1, s.2.format) s.2.storage.buckets).1.1.alive = true) :
    List.Forall₂ (fun b₀ c => b₀.Foreign → bucketBackend.wrongMagic c.priv.1 = true) opened
      ((checkedBuckets bucketDriver.logged verify s.1 s.2.format s.2.storage).map Prod.fst) := by
  have hwasRead := @checkedBuckets_wasRead _ _ bucketDriver.logged verify s.1 s.2.format s.2.storage
  -- A mark that is there stays.
  have hkept : List.Forall₂ (fun b₀ c => b₀.Foreign → b₀.Examined calls → bucketBackend.wrongMagic c.priv.1 = true)
      opened ((checkedBuckets bucketDriver.logged verify s.1 s.2.format s.2.storage).map Prod.fst) := by
    refine forall₂_chain ?_ (h.marked halive) hwasRead
    intro b₀ b c hb hread hforeign hexamined
    obtain ⟨env', hpriv⟩ := hread
    rw [hpriv]
    exact bucketRead_marked env' (hb hforeign hexamined)
  by_cases hearlier : ∃ call ∈ calls, call.noAuth ≠ none
  · refine hkept.imp fun b₀ c hc hforeign => hc hforeign ?_
    cases b₀ with
    | direct => exact hearlier
    | circular => trivial
  by_cases hany : ∃ b ∈ opened, b.Foreign
  · have henv : s.1.Clean := ⟨halive, h.fresh hany fun call hcall => by_contra fun hne => hearlier ⟨call, hcall, hne⟩⟩
    have hnew := forall₂_chain (T := fun b₀ c => b₀.Foreign → (∃ d, b₀ = .direct d) →
      bucketBackend.wrongMagic c.priv.1 = true) ?_ h.untouched (sweep_checkBucket_marks henv hloop)
    · refine List.Forall₂.mp ?_ hkept hnew
      intro b₀ c hk hn hforeign
      cases b₀ with
      | direct d => exact hn hforeign ⟨d, rfl⟩
      | circular => exact hk hforeign trivial
    · intro b₀ b c hb hc hforeign hdirect
      obtain ⟨d, rfl⟩ := hdirect
      obtain ⟨-, hbytes⟩ := hb hforeign
      generalize hpriv : b.priv.1 = b₁ at hbytes
      cases hbytes with
      | @direct _ d' harea =>
        refine hc d' hpriv ?_
        simpa only [Bucket.Foreign, harea] using hforeign
  · refine (List.forall₂_and_left (p := fun b₀ => ¬ b₀.Foreign) opened _).2 ⟨?_, hkept⟩ |>.imp ?_
    · exact fun b hb hforeign => hany ⟨b, hb, hforeign⟩
    · exact fun b₀ c hboth hforeign => absurd hforeign hboth.1

/-- A load that spares the foreign buckets marks them. -/
theorem ForeignKept.load_marked (h : ForeignKept opened calls s) (halive : s.1.alive = true) {verify : Verify F}
    (hspares : Spares Bucket.Foreign opened verify s.1 s.2.format s.2.storage)
    (hdone : (stateStorageRead bucketDriver.logged verify s.1 s.2.format s.2.storage).env.alive = true) :
    List.Forall₂ (fun b₀ b => b₀.Foreign → bucketBackend.wrongMagic b.priv.1 = true) opened
      (stateStorageRead bucketDriver.logged verify s.1 s.2.format s.2.storage).storage.buckets := by
  have hloop : (sweep (checkBucket bucketDriver.logged verify) (s.1, s.2.format) s.2.storage.buckets).1.1.alive =
      true := by
    by_contra hdead
    rw [stateStorageRead_stopped (Bool.not_eq_true _ ▸ hdead)] at hdone
    cases hdone
  have hchecked : List.Forall₂ (fun b₀ c => b₀.Foreign → bucketBackend.wrongMagic c.priv.1 = true) opened
      ((checkedBuckets bucketDriver.logged verify s.1 s.2.format s.2.storage).map Prod.fst) :=
    h.checked_marked halive hloop
  cases hm : firstMarked (checkedBuckets bucketDriver.logged verify s.1 s.2.format s.2.storage) with
  | none =>
    rw [(stateStorageRead_none hm).2]
    exact hchecked
  | some m =>
    obtain ⟨front, used, back⟩ := m
    obtain ⟨-, -, -, hrefreshed⟩ := stateStorageRead_some hm
    have hboth := List.Forall₂.mp (fun _ _ hc hfresh => And.intro hc hfresh) hchecked (hspares front used back hm)
    refine forall₂_chain ?_ hboth hrefreshed
    intro b₀ c b hc hb hforeign
    rcases hb with hsame | ⟨hstale, -⟩
    · rw [hsame]
      exact hc.1 hforeign
    · exact absurd hstale (hc.2 hforeign)

theorem ForeignKept.start {env env' : Env} {bs : List Bucket} (henv : env.Clean) (hbs : ∀ b ∈ bs, b.Whole)
    (hopen : openBuckets env bs = (env', opened)) {f : F} {readonly : Bool} {data : StateData}
    (hkeep : (ofFindProperty data.node (cstr "keep-previous-content")).isSome = true) :
    ForeignKept opened [] (env', stateNew f readonly data (unwritten opened)) := by
  have hmarks := sweep_forall₂ (f := bucketReopen) (I := Env.Clean)
    (R := fun _ (o : Option Bucket) => ∀ b, o = some b → b.IsCircular → b.Foreign →
      bucketBackend.wrongMagic b = true) (l := bs) (s := env)
    (fun env b hb henv => bucketReopen_marks henv (hbs b hb) rfl) henv
  simp only [openBuckets, Prod.mk.injEq] at hopen
  obtain ⟨rfl, rfl⟩ := hopen
  obtain ⟨henv', hall⟩ := hmarks
  refine ⟨hkeep, .start _, fun _ _ => henv'.2, fun _ => ?_⟩
  simp only [stateNew, Storage.fresh, unwritten, List.map_map]
  refine List.forall₂_map_right_iff.2 (List.forall₂_same.2 fun b hb hforeign hexamined => ?_)
  obtain ⟨o, ho, hsome⟩ := List.mem_filterMap.1 hb
  obtain ⟨b₀, -, hmark⟩ := forall₂_mem_right hall ho
  cases b with
  | direct d =>
    obtain ⟨_, hmem, -⟩ := hexamined
    cases hmem
  | circular c => exact hmark _ hsome trivial hforeign

theorem ForeignKept.step {call : StateCall} (h : ForeignKept opened calls s) (halive : s.1.alive = true)
    (hspares : SparesForeign fmt opened calls s call) :
    ForeignKept opened (call :: calls) (call.exec fmt bucketBackend.logged s.1 s.2) := by
  have hkeep := (@StateCall.exec_keepPrevContent _ _ fmt bucketBackend.logged s.1 s.2 call).trans h.keep
  have hstorage := @StateCall.exec_storageStep _ _ fmt bucketBackend.logged s.1 s.2 call
  rcases hexec : call.exec fmt bucketBackend.logged s.1 s.2 with ⟨env', st'⟩
  rw [hexec] at hkeep hstorage
  simp only at hkeep hstorage
  generalize hst : st'.storage = storage' at hstorage
  have hsame : ∀ {env₁ : Env}, call.noAuth = none → env₁.faults = s.1.faults → storage' = s.2.storage → env' = env₁ →
      ForeignKept opened (call :: calls) (env', st') := by
    rintro env₁ hcall hfaults rfl rfl
    refine ⟨hkeep, hst ▸ h.untouched, fun hany hloads => ?_, fun _ => ?_⟩
    · exact hfaults.trans (h.fresh hany fun c hc => hloads c (List.mem_cons_of_mem _ hc))
    · rw [hst]
      exact (h.marked halive).imp fun b₀ b hb hforeign hexamined => hb hforeign (hexamined.of_cons hcall)
  cases hstorage with
  | kept hcall hfaults => exact hsame hcall hfaults rfl rfl
  | @loaded noAuth _ hcall hdone =>
    have hload := hspares.load noAuth hcall
    refine ⟨hkeep, ?_, fun _ hloads => ?_, fun halive' => ?_⟩
    · rw [hst]
      exact h.untouched.load hload
    · exact absurd (hloads call (by simp)) (by simp [hcall])
    · rw [hst]
      refine (h.load_marked halive hload ?_).imp fun b₀ b hb hforeign _ => hb hforeign
      exact (hdone halive') ▸ halive'
  | @saved f buf hcall hdirty hpack hfree =>
    have hnone : call.noAuth = none := by rw [hcall]; rfl
    cases hro : s.2.storage.readonly with
    | true =>
      rw [stateStorageWrite_readonly hro] at *
      exact hsame hnone rfl rfl rfl
    | false =>
      -- There is nothing foreign, or something is marked.
      have hno : ∀ b ∈ opened, ¬ b.Foreign := by
        intro b hb hforeign
        obtain ⟨b', hb', hforeign', hexamined⟩ := hspares.save hcall hdirty hro f buf hpack b hb hforeign
        obtain ⟨c, hc, hmark⟩ := forall₂_mem_left (h.marked halive) hb'
        exact hfree ⟨h.keep, List.any_eq_true.2 ⟨c, hc, hmark hforeign' hexamined⟩⟩
      have hlength := forall₂_chain (T := fun _ _ => True) (fun _ _ _ _ _ => trivial) h.untouched
        (stateStorageWrite_length (d := bucketDriver.logged) s.1 s.2.storage buf)
      have hall := (List.forall₂_and_left (p := fun b₀ => ¬ b₀.Foreign) opened _).2 ⟨hno, hlength⟩
      refine ⟨hkeep, ?_, fun hany => ?_, fun _ => ?_⟩
      · rw [hst]
        exact hall.imp fun b₀ b hb hforeign => absurd hforeign hb.1
      · obtain ⟨b, hb, hforeign⟩ := hany
        exact absurd hforeign (hno b hb)
      · rw [hst]
        exact hall.imp fun b₀ b hb hforeign => absurd hforeign hb.1

/-- **Foreign buckets are kept** in a run with `keep-previous-content` whose
loads spare them, and that saves nothing before one of them was examined. -/
theorem foreign_kept {env env' : Env} {bs : List Bucket} (henv : env.Clean) (hbs : ∀ b ∈ bs, b.Whole)
    (hopen : openBuckets env bs = (env', opened)) {f : F} {readonly : Bool} {data : StateData}
    (hkeep : (ofFindProperty data.node (cstr "keep-previous-content")).isSome = true)
    (hrun : (stateSystem fmt bucketBackend.logged (env', stateNew f readonly data (unwritten opened))).RunIf
      (SparesForeign fmt opened) calls s) :
    List.Forall₂ (fun b₀ b => b₀.Foreign → b.priv.2 = [] ∧ b₀.SameBytes b.priv.1) opened s.2.storage.buckets := by
  have hinv : ForeignKept opened calls s := by
    refine hrun.invariant ?_ ?_
    · intro s hs
      subst hs
      exact .start henv hbs hopen hkeep
    · intro calls s call s' hI hspares hstep
      obtain ⟨halive, rfl⟩ := hstep
      exact hI.step halive hspares
  exact hinv.untouched

end

/-- A state with one flag that keeps previous content, and a file of something
else. -/
def keepingNode : DeviceNode :=
  .node (cstr "state") 0 [⟨cstr "magic", beBytes 4 1⟩, ⟨cstr "keep-previous-content", []⟩]
    [variableNode "a@0" "uint8" 0 1 []]

def foreignFile : BucketDirect := ⟨64, false, false, false, List.replicate 64 0x55, flagStride_lt⟩

theorem foreignFile_foreign : (Bucket.direct foreignFile).Foreign := by
  refine ⟨by decide +kernel, ?_⟩
  have hmagic : leNat (foreignFile.area.take 4) = 0x55555555 := by decide +kernel
  rw [hmagic]
  exact ⟨by decide, by decide, by decide⟩

theorem openBuckets_foreignFile (env : Env) (bs : List Bucket) :
    (openBuckets env (.direct foreignFile :: bs)).2.head? = some (.direct foreignFile) := rfl

/-- With a foreign file and an erased block nothing is loaded, and saving is
refused. -/
theorem foreign_kept_refused : ∃ s env opened t, stateFromNodeCreate keepingNode = some (s, 0) ∧
    openBuckets .ok [.direct foreignFile, erasedBlock] = (env, opened) ∧ opened.head? = some (.direct foreignFile) ∧
    (stateSystem rawFormat bucketBackend.logged
      (env, stateNew (backendFormatRawCreate none) false s (unwritten opened))).Run [.save, .load] t ∧
    List.Forall₂ (fun b₀ b => b₀.Foreign → b.priv.2 = [] ∧ b₀.SameBytes b.priv.1) opened t.2.storage.buckets := by
  obtain ⟨s, hs⟩ : ∃ s, acceptedState keepingNode = some s := Option.isSome_iff_exists.1 (by decide +kernel)
  have hmagic : (acceptedState keepingNode).map (·.magic) = some 1 := by decide +kernel
  have heval : (acceptedState keepingNode).map (fun s =>
      let r := loggedRun false [.direct foreignFile, erasedBlock] [.load] s
      ((ofFindProperty s.node (cstr "keep-previous-content")).isSome,
        (openBuckets .ok [.direct foreignFile, erasedBlock]).1.alive, r.2.1.alive)) = some (true, true, true) := by
    decide +kernel
  have hnone : ∀ noAuth, (firstMarked (checkedBuckets bucketDriver.logged (rawFormat.verify 1 noAuth)
      (openBuckets .ok [.direct foreignFile, erasedBlock]).1 (backendFormatRawCreate none)
      (.fresh false (unwritten (openBuckets .ok [.direct foreignFile, erasedBlock]).2)))).isNone = true := by
    decide +kernel
  rw [hs, Option.map_some, Option.some.injEq] at hmagic heval
  rcases hopen : openBuckets .ok [.direct foreignFile, erasedBlock] with ⟨env, opened⟩
  simp only [loggedRun, hopen, List.foldl_cons, List.foldl_nil, Prod.mk.injEq] at heval hnone
  have hhead := openBuckets_foreignFile .ok [erasedBlock]
  rw [hopen] at hhead
  obtain ⟨hkeep, halive, halive₁⟩ := heval
  have hstart : SparesForeign rawFormat opened []
      (env, stateNew (backendFormatRawCreate none) false s (unwritten opened)) .load := by
    refine ⟨fun noAuth _ front used back hm => ?_, fun hsave => by cases hsave⟩
    simp only [stateNew, hmagic] at hm
    rw [Option.isNone_iff_eq_none.1 (hnone noAuth)] at hm
    cases hm
  have hload := System.RunIf.step (S := stateSystem rawFormat bucketBackend.logged
    (env, stateNew (backendFormatRawCreate none) false s (unwritten opened)))
    (G := SparesForeign rawFormat opened) (.init rfl) hstart ⟨halive, rfl⟩
  have hwhole : ∀ b ∈ [.direct foreignFile, erasedBlock], b.Whole := by
    intro b hb
    simp only [List.mem_cons, List.not_mem_nil, or_false] at hb
    rcases hb with rfl | rfl
    · trivial
    · exact (by decide : (List.replicate 32 (0xff : UInt8)).length = 32)
  have hguard : SparesForeign rawFormat opened [.load] (StateCall.exec rawFormat bucketBackend.logged env
      (stateNew (backendFormatRawCreate none) false s (unwritten opened)) .load) .save := by
    refine ⟨fun _ hload => (by cases hload), fun _ _ _ _ _ _ b hb hforeign => ⟨b, hb, hforeign, ?_⟩⟩
    cases b with
    | direct d => exact ⟨.load, by simp, by decide⟩
    | circular c => trivial
  have hsave := hload.step (l := .save) hguard ⟨halive₁, rfl⟩
  -- The state behind the run is not to be unfolded from here on.
  generalize StateCall.exec rawFormat bucketBackend.logged _ _ .save = t at hsave
  exact ⟨s, env, opened, t, acceptedState_eq hs, rfl, hhead, hsave.run,
    foreign_kept ⟨rfl, rfl⟩ hwhole hopen hkeep hsave⟩

/-- A load writes the flag of the second file to the foreign one. -/
theorem foreign_repaired : ∃ s env opened t, stateFromNodeCreate keepingNode = some (s, 0) ∧
    openBuckets .ok [.direct foreignFile, .direct (rawFlagFile 1 1)] = (env, opened) ∧
    (stateNew (backendFormatRawCreate none) false s (unwritten opened)).keepPrevContent = true ∧
    (stateSystem rawFormat bucketBackend.logged
      (env, stateNew (backendFormatRawCreate none) false s (unwritten opened))).Run [.load] t ∧
    opened.head? = some (.direct foreignFile) ∧ (Bucket.direct foreignFile).Foreign ∧
    t.2.storage.buckets.map (fun b => b.priv.2) = [[rawFlag 1 1], []] := by
  obtain ⟨s, hs⟩ : ∃ s, acceptedState keepingNode = some s := Option.isSome_iff_exists.1 (by decide +kernel)
  have heval : (acceptedState keepingNode).map (fun s =>
      let r := loggedRun false [.direct foreignFile, .direct (rawFlagFile 1 1)] [.load] s
      ((ofFindProperty s.node (cstr "keep-previous-content")).isSome,
        (openBuckets .ok [.direct foreignFile, .direct (rawFlagFile 1 1)]).1.alive,
        r.2.2.storage.buckets.map (fun b => b.priv.2))) = some (true, true, [[rawFlag 1 1], []]) := by
    decide +kernel
  rw [hs, Option.map_some, Option.some.injEq] at heval
  rcases hopen : openBuckets .ok [.direct foreignFile, .direct (rawFlagFile 1 1)] with ⟨env, opened⟩
  simp only [loggedRun, hopen, List.foldl_cons, List.foldl_nil, Prod.mk.injEq] at heval
  have hhead := openBuckets_foreignFile .ok [.direct (rawFlagFile 1 1)]
  rw [hopen] at hhead
  obtain ⟨hkeep, halive, hlogs⟩ := heval
  have hrun := @stateSystem_step _ _ rawFormat bucketBackend.logged _
    (env, stateNew (backendFormatRawCreate none) false s (unwritten opened)) [] (.init rfl) halive .load
  -- The state behind the run is not to be unfolded from here on.
  generalize StateCall.exec rawFormat bucketBackend.logged env
    (stateNew (backendFormatRawCreate none) false s (unwritten opened)) .load = t at hlogs hrun
  exact ⟨s, env, opened, t, acceptedState_eq hs, rfl, hkeep, hrun, hhead, foreignFile_foreign, hlogs⟩

end DtUtils
