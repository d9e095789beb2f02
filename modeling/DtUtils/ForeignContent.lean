/-
Content of another state, with another magic, on the buckets of a state. The
raw format asks for the magic when it verifies, the dtb format only when it
imports, behind the repair (`foreign_never_used_iff`).
-/
import DtUtils.LoadedTree
import DtUtils.Writes

namespace DtUtils
open Lib

section
variable {F : Type} (verify : Verify F)

/-- The data that the buckets delivered and `verify` accepts, in order. -/
def accepted (f : F) : List Delivery → Option (List (Bytes × Int))
  | [] => some []
  | none :: xs => accepted f xs
  | some (buf, len) :: xs => do
    let (f, ret, len) ← verify f buf len
    let later ← accepted f xs
    return if ret = 0 then (buf, len) :: later else later

/-- With `carries` for the right magic: `state_storage_read` selects the first
accepted data that carry it, if there are any, and nothing otherwise, and it
copies nothing else. -/
def IgnoresForeign (carries : Bytes → Bool) (env : Env) (f : F) (s : Storage Bucket) : Prop :=
  let r := stateStorageRead bucketDriver verify env f s
  let logged := stateStorageRead bucketDriver.logged verify env f s.logged
  r.env.alive = true → ∀ data, accepted verify f (deliveries bucketDriver env s.buckets) = some data →
    (match data.find? fun x => carries x.1 with
      | some (buf, len) => r.ret = 0 ∧ r.buf = buf ∧ r.len = len
      | none => r.ret ≠ 0) ∧
    ∀ b ∈ logged.storage.buckets, ∀ p ∈ b.priv.2, ∃ x ∈ data, carries x.1 ∧ p = x.1.take x.2.toNat

end

section
variable {F : Type} {verify : Verify F}

/-- The first of them are the data that are selected. -/
theorem verifyAll_accepted {f : F} {xs : List Delivery} :
    (accepted verify f xs).map List.head? = (verifyAll verify f xs).map Prod.snd := by
  induction xs generalizing f with
  | nil => rfl
  | cons x xs ih =>
    cases x with
    | none => exact ih
    | some x =>
      obtain ⟨buf, len⟩ := x
      simp only [accepted, verifyAll, Option.bind_eq_bind]
      cases verify f buf len with
      | none => rfl
      | some v =>
        obtain ⟨f₁, ret, len₁⟩ := v
        have ih := @ih f₁
        cases ha : accepted verify f₁ xs with
        | none =>
          rw [ha] at ih
          have hv : verifyAll verify f₁ xs = none := Option.map_eq_none_iff.1 ih.symm
          simp [ha, hv]
        | some data =>
          rw [ha] at ih
          obtain ⟨⟨f₂, later⟩, hv, hlater⟩ := Option.map_eq_some_iff.1 ih.symm
          simp only at hlater
          by_cases h0 : ret = 0 <;> simp [ha, hv, h0, hlater]

/-- What a load writes to the buckets is a copy of the data in use. -/
theorem stateStorageRead_copies {env : Env} {f : F} {s : Storage Bucket} :
    ∀ b ∈ (stateStorageRead bucketDriver.logged verify env f s.logged).storage.buckets,
      ∀ p ∈ b.priv.2, (stateStorageRead bucketDriver verify env f s).ret = 0 ∧
        p = (stateStorageRead bucketDriver verify env f s).buf.take
          (stateStorageRead bucketDriver verify env f s).len.toNat := by
  intro b hb p hp
  have hplain := @stateStorageRead_map _ _ _ _ _ _ verify bucketDriver.logged_projects env f s.logged
  rw [Storage.logged_map] at hplain
  have hread := @checkedBuckets_wasRead _ _ bucketDriver.logged verify env f s.logged
  -- Reading leaves the logs.
  have hlog : ∀ c ∈ (checkedBuckets bucketDriver.logged verify env f s.logged).map Prod.fst,
      c.priv.2 = [] := by
    intro c hc
    obtain ⟨b, hb, env', hpriv⟩ := forall₂_mem_right hread hc
    obtain ⟨b₀, -, rfl⟩ := List.mem_map.1 hb
    rw [hpriv]
    rfl
  rw [hplain]
  cases hm : firstMarked (checkedBuckets bucketDriver.logged verify env f s.logged) with
  | none =>
    obtain ⟨-, hbuckets⟩ := stateStorageRead_none hm
    rw [hbuckets] at hb
    rw [hlog b hb] at hp
    cases hp
  | some m =>
    obtain ⟨front, used, back⟩ := m
    obtain ⟨hret, hbuf, hlen, hrefreshed⟩ := stateStorageRead_some hm
    refine ⟨hret, ?_⟩
    simp only [ReadOutcome.map, hbuf, hlen]
    obtain ⟨c, hc, hsame | ⟨-, env', hwritten⟩⟩ := forall₂_mem_right hrefreshed hb
    · rw [hsame, hlog c hc] at hp
      cases hp
    · have hpriv : b.priv.2 = used.buf.take used.len.toNat :: c.priv.2 := by rw [hwritten]; rfl
      rw [hpriv, hlog c hc, List.mem_singleton] at hp
      exact hp

theorem IgnoresForeign.uses {carries : Bytes → Bool} {env : Env} {f : F} {s : Storage Bucket}
    (h : IgnoresForeign verify carries env f s)
    (halive : (stateStorageRead bucketDriver verify env f s).env.alive = true)
    {data : List (Bytes × Int)} (hdata : accepted verify f (deliveries bucketDriver env s.buckets) = some data)
    {buf : Bytes} {len : Int} (hfind : data.find? (fun x => carries x.1) = some (buf, len)) :
    (stateStorageRead bucketDriver verify env f s).buf = buf := by
  obtain ⟨hsel, -⟩ := h halive data hdata
  rw [hfind] at hsel
  exact hsel.2.1

/-- Foreign content is ignored exactly if the first accepted data are not
foreign. -/
theorem ignoresForeign_iff {carries : Bytes → Bool} {env : Env} {f : F} {s : Storage Bucket} :
    IgnoresForeign verify carries env f s ↔ ((stateStorageRead bucketDriver verify env f s).env.alive = true →
      ∀ f' buf len, verifyAll verify f (deliveries bucketDriver env s.buckets) = some (f', some (buf, len)) →
        carries buf = true) := by
  have hsel := @stateStorageRead_selects _ _ _ verify bucketDriver_readStops env f s
  constructor
  · intro h halive f' buf len hv
    rw [hv] at hsel
    obtain ⟨hret, -, hbuf, hlen⟩ := hsel
    have hacc := @verifyAll_accepted _ verify f (deliveries bucketDriver env s.buckets)
    rw [hv, Option.map_some] at hacc
    obtain ⟨data, hdata, -⟩ := Option.map_eq_some_iff.1 hacc
    obtain ⟨hfind, -⟩ := h halive data hdata
    split at hfind
    · next buf' len' hfound =>
      have hcarries := List.find?_some hfound
      obtain ⟨-, hbuf', -⟩ := hfind
      rw [← hbuf, hbuf']
      exact hcarries
    · exact absurd hret hfind
  · intro h halive data hdata
    have hacc := @verifyAll_accepted _ verify f (deliveries bucketDriver env s.buckets)
    rw [hdata, Option.map_some] at hacc
    obtain ⟨⟨f', selected⟩, hv, hhead⟩ := Option.map_eq_some_iff.1 hacc.symm
    simp only at hhead
    subst hhead
    rw [hv] at hsel
    cases data with
    | nil =>
      obtain ⟨hret, -, -⟩ := hsel
      have hne : (stateStorageRead bucketDriver verify env f s).ret ≠ 0 := by
        rw [hret]
        decide
      exact ⟨hne, fun b hb p hp => absurd (stateStorageRead_copies b hb p hp).1 hne⟩
    | cons x data =>
      obtain ⟨buf, len⟩ := x
      obtain ⟨hret, -, hbuf, hlen⟩ := hsel
      have hcarries := h halive f' buf len hv
      rw [show ((buf, len) :: data).find? (fun x => carries x.1) = some (buf, len) from List.find?_cons_of_pos hcarries]
      refine ⟨⟨hret, hbuf, hlen⟩, fun b hb p hp => ⟨(buf, len), by simp, hcarries, ?_⟩⟩
      rw [(stateStorageRead_copies b hb p hp).2, hbuf, hlen]

end

/-! ## The two formats -/

/-- The stored header has the magic. -/
def rawCarries (magic : UInt32) (data : Bytes) : Bool := (BackendRawHeader.parse data).magic = magic.toNat

/-- The stored tree has the magic. -/
def dtbCarries (magic : UInt32) (data : Bytes) : Bool :=
  (dtbTree data).any fun tree => (ofPropertyReadU32 tree (cstr "magic")).toOption = some magic

theorem backendFormatRawVerify_magic {magic : UInt32} {noAuth : Bool} {raw raw' : RawFormat} {buf : Bytes}
    {len len' : Int} (hmagic : magic ≠ 0)
    (h : backendFormatRawVerify magic noAuth raw buf len = some (raw', 0, len')) : rawCarries magic buf = true := by
  rw [backendFormatRawVerify] at h
  split at h
  · cases h
  split at h
  · cases h
  simp only at h
  split at h
  · cases h
  split at h
  · cases h
  · next hno => exact decide_eq_true (by_contra fun hne => hno ⟨hmagic, fun heq => hne heq.symm⟩)

/-- **Foreign content**: the raw format never uses it. The dtb format does not
use it exactly if the first data that verify, if any, carry the magic. -/
theorem foreign_never_used_iff (noAuth : Bool) (env : Env) :
    (∀ st : State RawFormat Bucket, st.data.magic ≠ 0 →
      IgnoresForeign (rawFormat.verify st.data.magic noAuth) (rawCarries st.data.magic) env st.format st.storage) ∧
    ∀ (junk : DeviceNode → Junk) (st : State DtbFormat Bucket),
      IgnoresForeign ((dtbFormat junk).verify st.data.magic noAuth) (dtbCarries st.data.magic) env st.format
          st.storage ↔
        ∀ kept data len, Selected (dtbFormat junk) noAuth env st kept data len →
          dtbCarries st.data.magic data = true := by
  constructor
  · intro st hmagic
    rw [ignoresForeign_iff]
    intro _ f' buf len hv
    obtain ⟨f₀, f₁, len₀, -, hverify⟩ := verifyAll_selected hv
    exact backendFormatRawVerify_magic hmagic hverify
  · intro junk st
    rw [ignoresForeign_iff]
    constructor
    · intro h kept data len hsel
      exact h hsel.1 kept data len hsel.2
    · intro h halive f' buf len hv
      exact h f' buf len ⟨halive, hv⟩

/-- A flag in the raw format. -/
def rawFlag (magic : UInt32) (value : UInt8) : Bytes := (rawPackHeader magic 1 [value]).bytes ++ [value]

/-- A file with one. -/
def rawFlagFile (magic : UInt32) (value : UInt8) : BucketDirect :=
  ⟨64, false, false, false, directRecord (rawFlag magic value), flagStride_lt⟩

/-- A foreign flag in front of one with the magic 1. -/
theorem foreign_never_used_raw : IgnoresForeign (backendFormatRawVerify 1 false) (rawCarries 1) .ok
    (backendFormatRawCreate none) (.fresh false [.direct (rawFlagFile 2 1), .direct (rawFlagFile 1 0)]) :=
  (foreign_never_used_iff false .ok).1
    (stateNew (backendFormatRawCreate none) false ⟨1, stateNode [], []⟩
      [.direct (rawFlagFile 2 1), .direct (rawFlagFile 1 0)]) (by decide)

/-- In the dtb format the foreign tree is selected and written over the other
one. -/
theorem foreign_tree_spreads : ∃ s, stateFromNodeCreate oneFlagNode = some (s, 0) ∧
    s.magic = 1 ∧ ¬ IgnoresForeign ((dtbFormat fun _ _ _ => 0).verify s.magic false) (dtbCarries s.magic) .ok none
      (.fresh false [.direct (treeFile 2 1), .direct (treeFile 1 2)]) ∧
    (stateStorageRead bucketDriver ((dtbFormat fun _ _ _ => 0).verify s.magic false) .ok none
      (.fresh false [.direct (treeFile 2 1), .direct (treeFile 1 2)])).storage.buckets.map (fun b => b.priv.content) =
        [some (flagBlob 2 1), some (flagBlob 2 1)] := by
  obtain ⟨s, hs⟩ : ∃ s, acceptedState oneFlagNode = some s :=
    Option.isSome_iff_exists.1 (by decide +kernel)
  have hmagic : (acceptedState oneFlagNode).map (·.magic) = some 1 := by
    decide +kernel
  have hread : (stateStorageRead bucketDriver dtbVerify .ok none
      (.fresh false [.direct (treeFile 2 1), .direct (treeFile 1 2)])).env.alive = true := by decide +kernel
  have haccepted : accepted dtbVerify none (deliveries bucketDriver .ok
      (Storage.fresh false [.direct (treeFile 2 1), .direct (treeFile 1 2)]).buckets) =
        some [(flagBlob 2 1, 137), (flagBlob 1 2, 137)] := by decide +kernel
  have hfind : [(flagBlob 2 1, (137 : Int)), (flagBlob 1 2, 137)].find? (fun x => dtbCarries 1 x.1) =
      some (flagBlob 1 2, 137) := by decide +kernel
  have hselected : (stateStorageRead bucketDriver dtbVerify .ok none
      (.fresh false [.direct (treeFile 2 1), .direct (treeFile 1 2)])).buf ≠ flagBlob 1 2 := by decide +kernel
  rw [hs, Option.map_some, Option.some.injEq] at hmagic
  have hcopied : (stateStorageRead bucketDriver dtbVerify .ok none
      (.fresh false [.direct (treeFile 2 1), .direct (treeFile 1 2)])).storage.buckets.map (fun b => b.priv.content) =
        [some (flagBlob 2 1), some (flagBlob 2 1)] := by decide +kernel
  refine ⟨s, acceptedState_eq hs, hmagic, fun h => ?_, hcopied⟩
  rw [hmagic] at h
  exact hselected (h.uses hread haccepted hfind)

end DtUtils
