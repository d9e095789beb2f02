/-
Runs of processes over redundant direct buckets, with the power failing at any
byte: each process loads the state and saves it any number of times. Every
load returns the payload of the last save that was completed or of one that
was cut short since, and stays with it (`direct_crash_atomic`) as long as a
load that has to repair a bucket is given the length of the whole payload.

The verify of an authenticated raw state reports the length without its HMAC.
A bucket that is repaired then lacks the HMAC and is no help when a later
save is cut (`direct_crash_unauthenticated`).
-/
import DtUtils.Buckets
import DtUtils.StorageCrash
import DtUtils.FormatRawFacts
import DtUtils.Sha2
import DtUtils.Lib.Run

namespace DtUtils
open Lib List

/-! ## A direct bucket as a medium that is overwritten in place -/

/-- The bucket's file begins with the record of the payload `m`. -/
structure BucketDirect.Holds (d : BucketDirect) (m : Bytes) : Prop where
  compat : d.compat = false
  readonly : d.readonly = false
  room : m.length + 8 ≤ d.maxSize
  int : m.length < 2 ^ 31
  record : ∃ rest, d.area = directRecord m ++ rest

theorem BucketDirect.Holds.payload {d : BucketDirect} {m : Bytes} (h : d.Holds m) : directPayload d = some m := by
  obtain ⟨rest, harea⟩ := h.record
  exact directPayload_record harea (by have := h.room; omega) h.int

theorem BucketDirect.Holds.sameFile {d d' : BucketDirect} {m : Bytes} (h : d.Holds m) (hs : d.SameFile d') :
    d'.Holds m := by
  obtain ⟨hc, hr, hroom, hint, hrec⟩ := h
  exact ⟨hs.compat ▸ hc, hs.readonly ▸ hr, hs.maxSize ▸ hroom, hint, hs.area ▸ hrec⟩

/-- A payload that is read in full is a record in the file. -/
theorem directRecord_of_payload {d : BucketDirect} {p : Bytes} (hcompat : d.compat = false)
    (h : directPayload d = some p) (hlen : p.length + 8 ≤ d.area.length) :
    p.length < 2 ^ 31 ∧ ∃ rest, d.area = directRecord p ++ rest := by
  have hdata := slice_length_le 8 (leNat (slice 4 4 d.area)) d.area
  unfold directPayload at h
  rw [if_neg (by simp only [directMetaSize]; omega)] at h
  by_cases hmagic : leNat (d.area.take 4) = directMagic
  · rw [if_pos hmagic] at h
    by_cases hmax : leNat (slice 4 4 d.area) ≤ d.maxSize
    · rw [if_pos hmax] at h
      have hint : 0 ≤ cInt (slice 8 (leNat (slice 4 4 d.area)) d.area).length := by
        by_contra hneg
        rw [BucketDirect.filled_eq_none (by omega)] at h
        cases h
      rw [BucketDirect.filled_eq_some hint, Option.some.injEq] at h
      have hp : p.length = leNat (slice 4 4 d.area) := by
        rw [← h, length_append, length_replicate]
        omega
      have hfull : (slice 8 (leNat (slice 4 4 d.area)) d.area).length = leNat (slice 4 4 d.area) :=
        slice_length (by omega)
      rw [hfull, Nat.sub_self, replicate_zero, append_nil, ← hp] at h
      have hlt : p.length < 2 ^ 31 := by
        by_contra hge
        have hmax' := d.maxSize_lt
        rw [hfull] at hint
        exact absurd (cInt_neg (x := leNat (slice 4 4 d.area)) (by omega) (by omega)) (by omega)
      refine ⟨hlt, d.area.drop (8 + p.length), ?_⟩
      have hm : leBytes 4 directMagic = d.area.take 4 := by
        have h := leBytes_leNat (d.area.take 4)
        rwa [show (d.area.take 4).length = 4 by simp; omega, hmagic] at h
      have hl : leBytes 4 p.length = slice 4 4 d.area := by
        have h := leBytes_leNat (slice 4 4 d.area)
        rwa [slice_length (by omega), ← hp] at h
      calc d.area = slice 0 (4 + 4 + p.length) d.area ++ d.area.drop (8 + p.length) := by
            rw [slice_zero_left, show 4 + 4 + p.length = 8 + p.length by omega, take_append_drop]
        _ = directRecord p ++ d.area.drop (8 + p.length) := by
            rw [slice_eq_append, slice_eq_append, slice_zero_left, Nat.zero_add, Nat.zero_add, directRecord, directMeta,
              hm, hl, h]
    · rw [if_neg hmax] at h
      cases h
  · rw [if_neg hmagic, hcompat, if_neg Bool.false_ne_true] at h
    cases h

theorem directInPlace : InPlace directDriver BucketDirect.Holds where
  read := by
    intro env d m henv hd
    obtain ⟨env', d', ret, out, hr, hfol, hsame, hdel⟩ := bucketDirectRead_power henv (.inl hd.compat)
    refine ⟨env', d', ret, out, hr, hfol, hd.sameFile hsame, fun halive => ?_⟩
    cases hdel halive with
    | payload h =>
      cases hd.payload.symm.trans h
      exact ⟨rfl, rfl⟩
    | error h => cases hd.payload.symm.trans h
    | zeros n h => cases hd.payload.symm.trans h
  write := by
    intro env d m p henv hd hlen
    have hroom := hd.room
    have hint := hd.int
    have hhead : d.headRoom p.length := by
      have := d.maxSize_lt
      simp only [BucketDirect.headRoom, directMetaSize]
      omega
    obtain ⟨env', ret, k, hw, hfol, hok, hlive, hz⟩ := bucketDirectWrite_power henv hd.readonly p
    have himage : d.image p = directRecord p := if_pos hhead
    rw [himage] at hw hok
    obtain ⟨rest, harea⟩ := hd.record
    have hmeta := directMeta_length m.length
    have hcut : splice 0 ((directRecord p).take k) d.area = directRecord (overwrite p (k - 8) m) ++ rest := by
      have hl : (overwrite p (k - 8) m).length = m.length := (overwrite_length hlen _).trans hlen.symm
      rw [harea, directRecord, directRecord, directRecord, hl, ← hlen, splice_take_append hlen.symm, hmeta, overwrite]
    rw [hcut] at hw
    refine ⟨env', _, ret, k - 8, hw, hfol, ⟨hd.compat, hd.readonly, ?_, ?_, rest, rfl⟩, fun halive => ?_,
        fun hdead => ?_⟩
    · rw [overwrite_length hlen]; simp only; omega
    · rw [overwrite_length hlen]; omega
    · have h0 := hlive halive hhead (by omega)
      obtain ⟨rfl, -⟩ := hok h0
      exact ⟨h0, by simp [directRecord]⟩
    · rw [hz hdead]

/-! ## Processes -/

/-- The files, and the storage of the process that has loaded the state, if
there is one. -/
structure DirectFiles where
  files : List BucketDirect
  process : Option (Env × Storage BucketDirect)

/-- What can be seen of a run. -/
inductive Happening
  /-- A load returns `ret` with the buffer `buf`. -/
  | loaded (ret : Int) (buf : Bytes)
  /-- A save of `p` is completed, or the power fails in it. -/
  | saved (p : Bytes) (completed : Bool)
  /-- The power fails in a load. -/
  | stopped
deriving DecidableEq

/-- What the buckets of a storage leave to the next process. -/
def DirectFiles.leave (env : Env) (st : Storage BucketDirect) : DirectFiles where
  files := st.buckets.map fun b => b.priv
  process := if env.alive then some (env, st) else none

section
variable {F : Type} (verify : Verify F) (format : F)

/-- A new process loads the state. -/
def DirectFiles.load (env : Env) (s : DirectFiles) : DirectFiles × Happening :=
  let r := stateStorageRead directDriver verify env format (.fresh false (s.files.map BucketDirect.reopen))
  (.leave r.env r.storage, if r.env.alive then .loaded r.ret r.buf else .stopped)

/-- The process saves `p`. -/
def DirectFiles.save (env : Env) (st : Storage BucketDirect) (p : Bytes) : DirectFiles × Happening :=
  let (env, st, ret, _) := stateStorageWrite directDriver env st p
  (.leave env st, .saved p (env.alive && decide (ret = 0)))

/-- Two buckets or more, with `p₀` in each of them and room for it. -/
structure DirectFiles.Prepared (p₀ : Bytes) (s : DirectFiles) : Prop where
  two : 2 ≤ s.files.length
  idle : s.process = none
  holds : ∀ d ∈ s.files, d.compat = false ∧ d.readonly = false ∧ p₀.length + 8 ≤ d.maxSize ∧
    p₀.length + 8 ≤ d.area.length ∧ directPayload d = some p₀

/-- All runs; `Packed` are the payloads that are saved. -/
def crashSystem (Packed : Bytes → Prop) (p₀ : Bytes) : System DirectFiles Happening where
  init := DirectFiles.Prepared p₀
  step s l s' :=
    (∃ env : Env, env.PowerOnly ∧ env.alive = true ∧ s.load verify format env = (s', l)) ∨
    ∃ env st p, s.process = some (env, st) ∧ Packed p ∧ DirectFiles.save env st p = (s', l)

/-- A load from these files has nothing to repair, or the length that is
reported for the payload in use is that of the whole payload. -/
def DirectFiles.Mendable (check : Bytes → Int × Int) (s : DirectFiles) : Prop :=
  ∀ sel, firstVerified check (s.files.filterMap directPayload) = some sel →
    passedOn check sel = sel ∨ ∀ d ∈ s.files, directPayload d = some sel

/-- The runs all of whose loads start from such files. -/
def mendingSystem (check : Bytes → Int × Int) (Packed : Bytes → Prop) (p₀ : Bytes) : System DirectFiles Happening where
  init := DirectFiles.Prepared p₀
  step s l s' := (crashSystem verify format Packed p₀).step s l s' ∧ ((∃ p c, l = .saved p c) ∨ s.Mendable check)

end

/-! ## What a history allows -/

/-- The payloads a load may return: that of the last completed save, or of one
that was cut since. -/
def candidates (p₀ : Bytes) : List Happening → List Bytes
  | [] => [p₀]
  | .saved p true :: _ => [p]
  | .saved p false :: h => p :: candidates p₀ h
  | _ :: h => candidates p₀ h

/-- What a load has returned since the last save began. -/
def returned : List Happening → Option Bytes
  | [] => none
  | .saved _ _ :: _ => none
  | .loaded _ buf :: _ => some buf
  | .stopped :: h => returned h

/-- Every load succeeded with `n` bytes of an allowed payload, the same as the
load before it if no save began in between. -/
def Atomic (n : Nat) (p₀ : Bytes) : List Happening → Prop
  | [] => True
  | .loaded ret buf :: h =>
    ret = 0 ∧ buf.take n ∈ candidates p₀ h ∧ (∀ b, returned h = some b → buf.take n = b.take n) ∧ Atomic n p₀ h
  | _ :: h => Atomic n p₀ h

/-- What is asked of a format: packed payloads have one length and verify, and
no other mixture of two of them does. -/
structure Packing (check : Bytes → Int × Int) (n : Nat) (Packed : Bytes → Prop) : Prop where
  length : ∀ p, Packed p → p.length = n
  verifies : ∀ p, Packed p → (check p).1 = 0
  mixture : ∀ p q m, Packed p → Packed q → Mixture p q m → (check m).1 = 0 → m = p ∨ m = q

section
variable {check : Bytes → Int × Int} {n : Nat} {Packed : Bytes → Prop}

/-- The bytes in the buckets: mixtures of two payloads, the first of them that
verifies being `sel`. -/
structure Mixed (check : Bytes → Int × Int) (Packed : Bytes → Prop) (sel : Bytes) (ms : List Bytes) : Prop where
  two : 2 ≤ ms.length
  packed : Packed sel
  mixed : ∃ other, Packed other ∧ ∀ m ∈ ms, Mixture sel other m
  first : firstVerified check ms = some sel

/-- Overwriting with the payload in use never makes another one complete. -/
theorem firstVerified_repair (hp : Packing check n Packed) {sel other : Bytes} (hsel : Packed sel)
    (hother : Packed other) {ms ms' : List Bytes} (hmix : ∀ m ∈ ms, Mixture sel other m)
    (hfirst : firstVerified check ms = some sel)
    (hover : Forall₂ (fun m m' => ∃ j, m' = overwrite sel j m) ms ms') : firstVerified check ms' = some sel := by
  induction hover with
  | nil => cases hfirst
  | @cons m m' ms ms' hm _ ih =>
    obtain ⟨j, rfl⟩ := hm
    have hmixed := hmix m (by simp)
    by_cases hv : (check (overwrite sel j m)).1 = 0
    · have : overwrite sel j m = sel := by
        rcases hp.mixture sel other _ hsel hother (hmixed.overwrite_left j) hv with h | h
        · exact h
        · -- Then `m` was complete before, and it would have been in use.
          have hmo : m = other := hmixed.eq_of_overwrite h
          have hvm : (check m).1 = 0 := by rw [hmo]; exact hp.verifies _ hother
          rw [firstVerified_pos hvm, Option.some.injEq] at hfirst
          rw [hfirst, overwrite_self]
      rw [firstVerified_pos hv, this]
    · have hnv : (check m).1 ≠ 0 := by
        intro h0
        rw [firstVerified_pos h0, Option.some.injEq] at hfirst
        rw [hfirst, overwrite_self] at hv
        exact hv (hp.verifies _ hsel)
      rw [firstVerified_neg hnv] at hfirst
      rw [firstVerified_neg hv]
      exact ih (fun m h => hmix m (by simp [h])) hfirst

theorem Mixed.repair (hp : Packing check n Packed) {sel : Bytes} {ms ms' : List Bytes} (h : Mixed check Packed sel ms)
    (hover : Forall₂ (fun m m' => ∃ j, m' = overwrite sel j m) ms ms') : Mixed check Packed sel ms' := by
  obtain ⟨other, hother, hmix⟩ := h.mixed
  refine ⟨hover.length_eq ▸ h.two, h.packed, ⟨other, hother, ?_⟩,
    firstVerified_repair hp h.packed hother hmix h.first hover⟩
  clear h
  induction hover with
  | nil => simp
  | @cons m m' ms ms' hm _ ih =>
    obtain ⟨j, rfl⟩ := hm
    intro x hx
    rcases mem_cons.1 hx with rfl | hx
    · exact (hmix m (by simp)).overwrite_left j
    · exact ih (fun m h => hmix m (by simp [h])) x hx

theorem Mixed.const (hp : Packing check n Packed) {p : Bytes} (hpk : Packed p) {ms : List Bytes} (htwo : 2 ≤ ms.length)
    (hall : ∀ m ∈ ms, m = p) : Mixed check Packed p ms := by
  refine ⟨htwo, hpk, ⟨p, hpk, fun m hm => by rw [hall m hm]; exact .left⟩, ?_⟩
  cases ms with
  | nil => simp at htwo
  | cons m ms =>
    rw [hall m (by simp), firstVerified_pos (hp.verifies p hpk)]

/-- A save over one payload leaves it or the new one in use. -/
theorem Mixed.save (hp : Packing check n Packed) {cur p : Bytes} (hcur : Packed cur) (hpk : Packed p)
    {ms ms' : List Bytes} (htwo : 2 ≤ ms.length) (hall : ∀ m ∈ ms, m = cur) (h : Saved p ms ms') :
    ∃ sel, (sel = p ∨ sel = cur) ∧ Mixed check Packed sel ms' := by
  have hl : cur.length = p.length := (hp.length _ hcur).trans (hp.length _ hpk).symm
  cases h with
  | all => exact ⟨p, .inl rfl, .const hp hpk (by simpa using htwo) (by simp)⟩
  | cut front m back j =>
    obtain rfl : m = cur := hall m (by simp)
    have hback : ∀ x ∈ back, x = m := fun x hx => hall x (by simp [hx])
    have hmp : ∀ x ∈ front.map (fun _ => p) ++ overwrite p j m :: back, Mixture p m x := by
      intro x hx
      rcases mem_append.1 hx with hx | hx
      · obtain ⟨-, -, rfl⟩ := mem_map.1 hx
        exact .left
      rcases mem_cons.1 hx with rfl | hx
      · exact (Mixture.right hl).overwrite_left j
      · rw [hback x hx]; exact .right hl
    have hmm : ∀ x ∈ front.map (fun _ => p) ++ overwrite p j m :: back, Mixture m p x :=
      fun x hx => (hmp x hx).swap hl
    have htwo' : 2 ≤ (front.map (fun _ => p) ++ overwrite p j m :: back).length := by simpa using htwo
    cases front with
    | cons f front =>
      exact ⟨p, .inl rfl, htwo', hpk, ⟨m, hcur, hmp⟩, firstVerified_pos (hp.verifies p hpk) _⟩
    | nil =>
      by_cases hv : (check (overwrite p j m)).1 = 0
      · have hf := firstVerified_pos hv back
        rcases hp.mixture p m _ hpk hcur ((Mixture.right hl).overwrite_left j) hv with h | h
        · exact ⟨p, .inl rfl, htwo', hpk, ⟨m, hcur, hmp⟩, hf.trans (congrArg some h)⟩
        · exact ⟨m, .inr rfl, htwo', hcur, ⟨p, hpk, hmm⟩, hf.trans (congrArg some h)⟩
      · -- The bucket behind the torn one still holds the old payload.
        cases back with
        | nil => simp at htwo
        | cons b back =>
          obtain rfl : b = m := hback b (by simp)
          exact ⟨b, .inr rfl, htwo', hcur, ⟨p, hpk, hmm⟩,
            (firstVerified_neg hv _).trans (firstVerified_pos (hp.verifies b hcur) back)⟩

/-! ## All runs -/

/-- What holds after every run of `mendingSystem`. -/
structure Sound (check : Bytes → Int × Int) (n : Nat) (Packed : Bytes → Prop) (p₀ : Bytes) (h : List Happening)
    (s : DirectFiles) : Prop where
  state : ∃ ms sel, Forall₂ BucketDirect.Holds s.files ms ∧ Mixed check Packed sel ms ∧ sel ∈ candidates p₀ h ∧
    (∀ b, returned h = some b → b.take n = sel) ∧
    ∀ env st, s.process = some (env, st) → env.PowerOnly ∧ env.alive = true ∧ st.readonly = false ∧
      s.files = st.buckets.map (fun b => b.priv) ∧ ∀ m ∈ ms, m = sel
  atomic : Atomic n p₀ h

variable {F : Type} {verify : Verify F} {P : F → Prop} {format : F} {p₀ : Bytes}

theorem holds_filterMap {ds : List BucketDirect} {ms : List Bytes} (h : Forall₂ BucketDirect.Holds ds ms) :
    ds.filterMap directPayload = ms ∧ ∀ sel, (∀ d ∈ ds, directPayload d = some sel) → ∀ m ∈ ms, m = sel := by
  induction h with
  | nil => exact ⟨rfl, by simp⟩
  | @cons d m ds ms hd _ ih =>
    refine ⟨by rw [filterMap_cons, hd.payload, ih.1], fun sel hall x hx => ?_⟩
    rcases mem_cons.1 hx with rfl | hx
    · have := hall d (by simp)
      rw [hd.payload] at this
      exact Option.some.inj this
    · exact ih.2 sel (fun d h => hall d (by simp [h])) x hx

/-- A load keeps to the payload in use, and repairs everything if it is not cut. -/
theorem Sound.load (hj : Judges verify P check) (hf : P format) (hp : Packing check n Packed) {h : List Happening}
    {s s' : DirectFiles} {l : Happening} (hs : Sound check n Packed p₀ h s) (hm : s.Mendable check) {env : Env}
    (henv : env.PowerOnly) (hl : s.load verify format env = (s', l)) : Sound check n Packed p₀ (l :: h) s' := by
  obtain ⟨⟨ms, sel, hhold, hmixed, hcand, hret, -⟩, hatomic⟩ := hs
  obtain ⟨hfm, hall⟩ := holds_filterMap hhold
  have hwhole : ∀ m ∈ ms, Whole check sel m := by
    obtain ⟨other, hother, hmix⟩ := hmixed.mixed
    intro m hmem
    refine ⟨(hmix m hmem).1, ?_⟩
    rw [DirectFiles.Mendable, hfm] at hm
    rcases hm sel hmixed.first with h | h
    · exact .inl h
    · exact .inr (hall sel h m hmem)
  have hopen : Forall₂ BucketDirect.Holds (s.files.map BucketDirect.reopen) ms :=
    forall₂_map_left_iff.2 (hhold.imp fun d m hd => hd.sameFile d.reopen_sameFile)
  have hrep := stateStorageRead_power directInPlace hj hopen hmixed.first hwhole henv hf false
  have hro := stateStorageRead_readonly directDriver verify env format (.fresh false (s.files.map BucketDirect.reopen))
  simp only [DirectFiles.load] at hl
  generalize stateStorageRead directDriver verify env format (.fresh false (s.files.map BucketDirect.reopen)) = r at *
  obtain ⟨⟨ms', hhold', hover, hfull⟩, hpow, hreturned⟩ := hrep
  obtain ⟨rfl, rfl⟩ := Prod.mk.inj hl
  have hmixed' := hmixed.repair hp hover
  have hholds : Forall₂ BucketDirect.Holds (DirectFiles.leave r.env r.storage).files ms' :=
      forall₂_map_left_iff.2 hhold'
  cases halive : r.env.alive with
  | true =>
    obtain ⟨hr0, hbuf⟩ := hreturned halive
    rw [hp.length sel hmixed.packed] at hbuf
    simp only [if_true]
    refine ⟨⟨ms', sel, hholds, hmixed', hcand, fun b hb => ?_, fun env' st hproc => ?_⟩, hr0, ?_, fun b hb => ?_,
        hatomic⟩
    · cases hb
      exact hbuf
    · simp only [DirectFiles.leave, halive, if_true, Option.some.injEq, Prod.mk.injEq] at hproc
      obtain ⟨rfl, rfl⟩ := hproc
      exact ⟨hpow, halive, hro, rfl, hfull halive⟩
    · rw [hbuf]; exact hcand
    · rw [hbuf, hret b hb]
  | false =>
    simp only [Bool.false_eq_true, if_false]
    refine ⟨⟨ms', sel, hholds, hmixed', hcand, hret, fun env' st hproc => ?_⟩, hatomic⟩
    simp [DirectFiles.leave, halive] at hproc

/-- A save starts from one payload and leaves it or the new one in use. -/
theorem Sound.save (hp : Packing check n Packed) {h : List Happening} {s s' : DirectFiles} {l : Happening}
    (hs : Sound check n Packed p₀ h s) {env : Env} {st : Storage BucketDirect} {p : Bytes}
    (hproc : s.process = some (env, st)) (hpk : Packed p) (hl : DirectFiles.save env st p = (s', l)) :
    Sound check n Packed p₀ (l :: h) s' := by
  obtain ⟨⟨ms, sel, hhold, hmixed, hcand, -, hprocess⟩, hatomic⟩ := hs
  obtain ⟨henv, halive, hro, hfiles, hall⟩ := hprocess env st hproc
  rw [hfiles] at hhold
  have hne : ms ≠ [] := by
    rintro rfl
    exact absurd hmixed.two (by simp)
  have hlen : ∀ m ∈ ms, m.length = p.length := fun m hm => by
    rw [hall m hm, hp.length _ hmixed.packed, hp.length _ hpk]
  obtain ⟨env', st', ret, rets, ms', hw, hpow, hro', hsaved, hhold', hfull⟩ :=
    stateStorageWrite_power directInPlace hro (forall₂_map_left_iff.1 hhold) hne hlen henv halive
  simp only [DirectFiles.save, hw] at hl
  obtain ⟨rfl, rfl⟩ := Prod.mk.inj hl
  have hholds : Forall₂ BucketDirect.Holds (DirectFiles.leave env' st').files ms' := forall₂_map_left_iff.2 hhold'
  cases ha : env'.alive with
  | true =>
    obtain ⟨rfl, hall'⟩ := hfull ha
    have htwo : 2 ≤ ms'.length := by
      cases hsaved with
      | all => simpa using hmixed.two
      | cut => simpa using hmixed.two
    refine ⟨⟨ms', p, hholds, .const hp hpk htwo hall', ?_, fun b hb => ?_, fun env₁ st₁ hpr => ?_⟩, hatomic⟩
    · simp [candidates]
    · cases hb
    · simp only [DirectFiles.leave, ha, if_true, Option.some.injEq, Prod.mk.injEq] at hpr
      obtain ⟨rfl, rfl⟩ := hpr
      exact ⟨hpow, ha, hro', rfl, hall'⟩
  | false =>
    obtain ⟨sel', hsel', hmixed'⟩ := Mixed.save hp hmixed.packed hpk hmixed.two hall hsaved
    refine ⟨⟨ms', sel', hholds, hmixed', ?_, fun b hb => ?_, fun env₁ st₁ hpr => ?_⟩, hatomic⟩
    · simp only [Bool.false_and, candidates, mem_cons]
      rcases hsel' with rfl | rfl
      · exact .inl rfl
      · exact .inr hcand
    · cases hb
    · simp [DirectFiles.leave, ha] at hpr

theorem sound_invariant (hj : Judges verify P check) (hf : P format) (hp : Packing check n Packed) (hp₀ : Packed p₀) :
    (mendingSystem verify format check Packed p₀).Invariant (Sound check n Packed p₀) where
  init := by
    intro s hs
    obtain ⟨htwo, hidle, hholds⟩ := hs
    have hall : Forall₂ BucketDirect.Holds s.files (s.files.map fun _ => p₀) := by
      refine forall₂_map_right_iff.2 (forall₂_same.2 fun d hd => ?_)
      obtain ⟨hcompat, hro, hroom, hlen, hpay⟩ := hholds d hd
      obtain ⟨hint, hrec⟩ := directRecord_of_payload hcompat hpay hlen
      exact ⟨hcompat, hro, hroom, hint, hrec⟩
    refine ⟨⟨_, p₀, hall, .const hp hp₀ (by simpa using htwo) (by simp), by simp [candidates], fun b hb => ?_, ?_⟩,
        trivial⟩
    · cases hb
    · rw [hidle]
      intro env st h
      cases h
  step := by
    intro h s l s' hs hstep
    obtain ⟨⟨env, henv, -, hl⟩ | ⟨env, st, p, hproc, hpk, hl⟩, hcond⟩ := hstep
    · rcases hcond with ⟨p, c, rfl⟩ | hm
      · -- The label of a load is not that of a save.
        simp only [DirectFiles.load, Prod.mk.injEq] at hl
        split at hl <;> cases hl.2
      · exact hs.load hj hf hp hm henv hl
    · exact hs.save hp hproc hpk hl

/-- **Crash atomicity of direct buckets**: with two buckets or more, in every
run whose loads have nothing to repair or are told the length of the whole
payload, each load succeeds and returns the payload of the last completed save
or of one cut since, the same as the load before it until a save begins. -/
theorem direct_crash_atomic (hj : Judges verify P check) (hf : P format) (hp : Packing check n Packed) (hp₀ : Packed p₀)
    {h : List Happening} {s : DirectFiles} (hrun : (mendingSystem verify format check Packed p₀).Run h s) :
    Atomic n p₀ h :=
  ((sound_invariant hj hf hp hp₀).run hrun).atomic

end

/-! ## With the raw format -/

/-- "Jefe" -/
def signedKey : Bytes := [74, 101, 102, 101]

/-- A state with one `uint8` variable and `algo = "hmac(sha256)"`, packed. -/
def signedFlag (v : UInt8) : Bytes :=
  let p := (rawPackHeader 1 1 [v]).bytes ++ [v]
  p ++ hmacSha256 signedKey p

def signedFormat : RawFormat := backendFormatRawCreate (some (some (hmacSha256Digest signedKey)))

def signedCheck : Bytes → Int × Int := rawCheck 1 (.ok (some (hmacSha256Digest signedKey)))

/-- The two payloads of that state. -/
def SignedFlag (p : Bytes) : Prop := p = signedFlag 0 ∨ p = signedFlag 1

theorem signedFlag_check : (signedFlag 0).length = 49 ∧ (signedFlag 1).length = 49 ∧
    signedCheck (signedFlag 0) = (0, 17) ∧ signedCheck (signedFlag 1) = (0, 17) := by
  refine ⟨?_, ?_, ?_, ?_⟩ <;> decide +kernel

theorem signedFlag_accepted {p : Bytes} (hp : SignedFlag p) :
    p.length = 49 ∧ RawAccepted 1 (some (hmacSha256Digest signedKey)) p 17 := by
  obtain ⟨h0, h1, h2, h3⟩ := signedFlag_check
  have hacc : ∀ q : Bytes, signedCheck q = (0, 17) → RawAccepted 1 (some (hmacSha256Digest signedKey)) q 17 := by
    intro q hq
    obtain ⟨d, n, hd, hn, h⟩ := (rawCheck_eq_zero (by intro e he; cases he)).1 hq
    cases hd
    obtain rfl : n = 17 := by omega
    exact h
  rcases hp with rfl | rfl
  · exact ⟨h0, hacc _ h2⟩
  · exact ⟨h1, hacc _ h3⟩

theorem signedFlag_packing : Packing signedCheck 49 SignedFlag where
  length p hp := (signedFlag_accepted hp).1
  verifies p hp := by
    rcases hp with rfl | rfl
    · exact congrArg Prod.fst signedFlag_check.2.2.1
    · exact congrArg Prod.fst signedFlag_check.2.2.2
  mixture p q m hp hq hm hv := by
    obtain ⟨hlp, hap⟩ := signedFlag_accepted hp
    obtain ⟨hlq, haq⟩ := signedFlag_accepted hq
    have h8 : p.take 8 = q.take 8 := by
      rcases hp with rfl | rfl <;> rcases hq with rfl | rfl <;> decide +kernel
    have hm8 : m.take 8 = p.take 8 := by
      apply ext_getElem?
      intro i
      have h := congrArg (fun l => l[i]?) h8
      simp only [getElem?_take] at h ⊢
      split
      · next hi =>
        simp only [hi, if_true] at h
        exact (hm.2 i).elim id fun hq => hq.trans h.symm
      · rfl
    obtain ⟨d, l, hd, -, ham⟩ := (rawCheck_eq_zero (by intro e he; cases he)).1
      (show signedCheck m = (0, (signedCheck m).2) from Prod.ext hv rfl)
    cases hd
    have hl : l = 17 := by
      have hs : slice 6 2 m = slice 6 2 p := by rw [← slice_take (m := 8) (by omega), hm8, slice_take (by omega)]
      rw [ham.len, hap.len]
      simp only [BackendRawHeader.parse, hs]
    subst hl
    have hbyte : ∀ {x : Bytes}, m[16]? = x[16]? → slice 16 1 m = slice 16 1 x := by
      intro x hx
      refine slice_ext fun i hi => ?_
      obtain rfl : i = 0 := by omega
      exact hx
    have hlm : m.length = 49 := hm.1.trans hlp
    rcases hm.2 16 with h | h
    · exact .inl (ham.eq_of_data hap hlm hlp hm8 (hbyte h))
    · exact .inr (ham.eq_of_data haq hlm hlq (hm8.trans h8) (hbyte h))

/-- A file with room for one record of that state, holding the flag 0. -/
def flagFile : BucketDirect := ⟨64, false, false, false, directRecord (signedFlag 0), flagStride_lt⟩

/-- The power fails after `k` bytes of the ninth request: with two buckets
of which one is repaired and none is, that is the payload's transfer to the
first bucket and to the second one. -/
def cutAt (k : Nat) : Env := { faults := replicate 8 .done ++ [.powerLoss k] }

/-- The process that is running saves `p`. -/
def DirectFiles.saveNow (s : DirectFiles) (p : Bytes) : DirectFiles × Happening :=
  match s.process with
  | some (env, st) => DirectFiles.save env st p
  | none => (s, .stopped)

section
variable {F : Type} {verify : Verify F} {format : F} {Packed : Bytes → Prop} {p₀ : Bytes} {s : DirectFiles}

theorem crash_load {env : Env} (henv : env.PowerOnly) (halive : env.alive = true) :
    (crashSystem verify format Packed p₀).step s (s.load verify format env).2 (s.load verify format env).1 :=
  .inl ⟨env, henv, halive, rfl⟩

theorem crash_save {p : Bytes} (hrun : s.process.isSome) (hp : Packed p) :
    (crashSystem verify format Packed p₀).step s (s.saveNow p).2 (s.saveNow p).1 := by
  obtain ⟨⟨env, st⟩, h⟩ := Option.isSome_iff_exists.1 hrun
  exact .inr ⟨env, st, p, h, hp, by simp [DirectFiles.saveNow, h]⟩

theorem cutAt_powerOnly (k : Nat) : (cutAt k).PowerOnly := by
  intro f hf
  rcases mem_append.1 hf with h | h
  · exact .inl (mem_replicate.1 h).2
  · exact .inr ⟨k, by simpa using h⟩

end

def signedVerify : Verify RawFormat := backendFormatRawVerify 1 false

/-- Two files, the flag 1 saved and cut in the second of them, that one
repaired by the next process, and its save of the flag 0 cut in the first. -/
def stripped : List (DirectFiles × Happening) :=
  let s₁ := DirectFiles.load signedVerify signedFormat (cutAt 10) ⟨[flagFile, flagFile], none⟩
  let s₂ := s₁.1.saveNow (signedFlag 1)
  let s₃ := s₂.1.load signedVerify signedFormat (cutAt 10)
  let s₄ := s₃.1.saveNow (signedFlag 0)
  [s₄.1.load signedVerify signedFormat .ok, s₄, s₃, s₂, s₁]

theorem flagFile_prepared : DirectFiles.Prepared (signedFlag 0) ⟨[flagFile, flagFile], none⟩ := by
  refine ⟨le_refl 2, rfl, fun d hd => ?_⟩
  obtain rfl : d = flagFile := by simpa using hd
  have hlen : (signedFlag 0).length = 49 := signedFlag_check.1
  refine ⟨rfl, rfl, by rw [hlen]; decide, ?_, directPayload_record (append_nil _).symm (by rw [hlen]; decide)
      (by omega)⟩
  simp [flagFile, directRecord]
  omega

theorem flagFile_mendable : DirectFiles.Mendable signedCheck ⟨[flagFile, flagFile], none⟩ := by
  intro sel hsel
  have hpay : directPayload flagFile = some (signedFlag 0) := (flagFile_prepared.holds flagFile (by simp)).2.2.2.2
  have hv : (signedCheck (signedFlag 0)).1 = 0 := congrArg Prod.fst signedFlag_check.2.2.1
  rw [filterMap_cons, hpay, firstVerified_pos hv, Option.some.injEq] at hsel
  subst hsel
  exact .inr (by simp [hpay])

theorem signed_judges :
    Judges signedVerify (fun raw => raw.algo = some (some (hmacSha256Digest signedKey))) signedCheck :=
  raw_judges 1 false (some (some (hmacSha256Digest signedKey)))

theorem direct_crash_atomic_flag :
    Atomic 49 (signedFlag 0) [(DirectFiles.load signedVerify signedFormat .ok ⟨[flagFile, flagFile], none⟩).2] :=
  direct_crash_atomic signed_judges rfl signedFlag_packing (Or.inl rfl)
    (.step (.init flagFile_prepared) ⟨crash_load Env.Clean.ok.powerOnly rfl, .inr flagFile_mendable⟩)

theorem stripped_run :
    ∃ s, (crashSystem signedVerify signedFormat SignedFlag (signedFlag 0)).Run (stripped.map Prod.snd) s := by
  have r₀ : (crashSystem signedVerify signedFormat SignedFlag (signedFlag 0)).Run [] _ := .init flagFile_prepared
  have r₁ := r₀.step (crash_load (cutAt_powerOnly 10) rfl)
  have r₂ := r₁.step (crash_save (p := signedFlag 1) (by decide +kernel) (.inr rfl))
  have r₃ := r₂.step (crash_load (cutAt_powerOnly 10) rfl)
  have r₄ := r₃.step (crash_save (p := signedFlag 0) (by decide +kernel) (.inl rfl))
  have r₅ := r₄.step (crash_load Env.Clean.ok.powerOnly rfl)
  exact ⟨_, r₅⟩

/-- The repaired bucket has no HMAC: after the second cut no bucket verifies. -/
theorem direct_crash_unauthenticated : Packing signedCheck 49 SignedFlag ∧
    DirectFiles.Prepared (signedFlag 0) ⟨[flagFile, flagFile], none⟩ ∧
    (∃ s, (crashSystem signedVerify signedFormat SignedFlag (signedFlag 0)).Run (stripped.map Prod.snd) s) ∧
    (stripped.map Prod.snd).head? = some (.loaded (-ENOENT) []) ∧
        ¬ Atomic 49 (signedFlag 0) (stripped.map Prod.snd) := by
  have hlast : (stripped.map Prod.snd).head? = some (.loaded (-ENOENT) []) := by decide +kernel
  refine ⟨signedFlag_packing, flagFile_prepared, stripped_run, hlast, fun h => ?_⟩
  cases hl : stripped.map Prod.snd with
  | nil => rw [hl] at hlast; cases hlast
  | cons l t =>
    rw [hl] at h hlast
    obtain rfl : l = .loaded (-ENOENT) [] := Option.some.inj hlast
    exact absurd h.1 (by decide)

end DtUtils
