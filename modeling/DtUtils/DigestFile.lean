/-
`digest_file_by_name` of `crypto/digest.c`: an algorithm is looked up by its
name among those that are registered, and a file is read and fed to it in
pieces of at most 4096 bytes. `none` results are accesses outside an object, or
an update that does not end.

The pieces are short enough for the counters of the updates, so that the digest
of a file of any size is that of its bytes, however they are read
(`digest_by_name`). A window of a file is digested unless its start looks like
a failure of `lseek` once it is an `int` (`digest_window_iff`).
-/
import DtUtils.DeviceTree
import DtUtils.Sha1
import DtUtils.Sha2Digest
import DtUtils.Transfers

namespace DtUtils
open Lib

/-! ## Algorithms -/

/-- `struct digest_algo`, and `ctx_length` bytes of zeros. -/
structure DigestAlgo where
  name : CString
  priority : Int
  length : Nat
  Ctx : Type
  zero : Ctx
  init : Ctx → Ctx × Int
  update : Ctx → Bytes → Option (Ctx × Int)
  /-- With what it writes. -/
  final : Ctx → Option (Ctx × Int × Bytes)

/-- A context that was wiped. -/
def ShaState.wiped {σ : Type} (state : σ) : ShaState σ := ⟨0, state, List.replicate 64 0, List.length_replicate⟩

/-- The algorithm of `sha1.c` -/
def sha1Algo (fuel : Nat) : DigestAlgo where
  name := cstr "sha1"
  priority := 0
  length := 20
  Ctx := ShaState Sha1Words
  zero := .wiped ⟨0, 0, 0, 0, 0⟩
  init ctx := (sha1Init ctx, 0)
  update ctx data := (shaUpdate shaTransform sha1More fuel ctx data).map fun ctx => (ctx, 0)
  final ctx :=
    (shaFinal shaTransform sha1More fuel ctx).map fun ctx => (.wiped ⟨0, 0, 0, 0, 0⟩, 0, ctx.state.bytes)

/-- The algorithms of `sha2.c` -/
def Sha2.algo (fuel : Nat) (sha2 : Sha2) : DigestAlgo where
  name :=
    match sha2 with
    | .sha224 => cstr "sha224"
    | .sha256 => cstr "sha256"
  priority := 0
  length := sha2.length
  Ctx := ShaState Sha256Words
  zero := .wiped ⟨0, 0, 0, 0, 0, 0, 0, 0⟩
  init ctx := (sha2.init ctx, 0)
  update ctx data := (shaUpdate sha256Transform sha256More fuel ctx data).map fun ctx => (ctx, 0)
  final ctx :=
    (shaFinal sha256Transform sha256More fuel ctx).map fun ctx =>
      (.wiped ⟨0, 0, 0, 0, 0, 0, 0, 0⟩, 0, ctx.state.bytes.take sha2.length)

/-- What is registered without a key, each update with `fuel` rounds. -/
def digests (fuel : Nat) : List DigestAlgo := [sha1Algo fuel, Sha2.algo fuel .sha224, Sha2.algo fuel .sha256]

/-- `digest_algo_get_by_name` -/
def digestAlgoGetByName (digests : List DigestAlgo) : Option CString → Option DigestAlgo
  | none => none
  | some name =>
    (digests.foldl (fun (d, priority) tmp =>
      if tmp.name ≠ name then (d, priority)
      else if tmp.priority ≤ priority then (d, priority)
      else (some tmp, tmp.priority)) (none, -1)).1

/-! ## Files -/

/-- What becomes of the calls on a file. -/
structure DigestFileCalls where
  content : Bytes
  /-- The size that `stat` finds. -/
  stat : Option Nat
  opens : Bool
  seeks : Bool
  /-- How many bytes each `read` delivers at most behind the first one, unless
  it fails. -/
  reads : Stream' (Option Nat)

/-- `read` at a position -/
def readAt (content : Bytes) (pos now : Nat) (answer : Option Nat) : Option Bytes :=
  answer.map fun more => slice pos (min now (more + 1)) content

section
variable (algo : DigestAlgo)

/-- The loop of `digest_file_window`: 0, or with what it is left. There are at
most as many rounds as bytes. -/
def digestWindowLoop (content : Bytes) : Nat → Stream' (Option Nat) → algo.Ctx → Nat → Nat → Option (algo.Ctx × Int)
  | 0, _, d, _, _ => some (d, 0)
  | fuel + 1, reads, d, pos, size =>
    if size = 0 then some (d, 0)
    else
      match readAt content pos (min 4096 size) reads.head with
      | none => some (d, -1)
      | some now =>
        if now = [] then some (d, 0)
        else do
          let (d, ret) ← algo.update d now
          if ret ≠ 0 then return (d, ret)
          else digestWindowLoop content fuel reads.tail d (pos + now.length) (size - now.length)

/-- `digest_final` of a digest without `sig`, and else `digest_verify`: what is
returned and what is written to `hash`. -/
def digestEnd (d : algo.Ctx) : Option Bytes → Option (Int × Bytes)
  | none => (algo.final d).map fun (_, ret, md) => (ret, md)
  | some sig => do
    let (_, ret, tmp) ← algo.final d
    if ret ≠ 0 then return (ret, [])
    else if sig.length < algo.length then none
    else return (if sig.take algo.length = tmp then 0 else -EINVAL, [])

/-- `digest_file_window` -/
def digestFileWindow (calls : DigestFileCalls) (sig : Option Bytes) (d : algo.Ctx) (start size : Nat) :
    Option (Int × Bytes) :=
  let (d, ret) := algo.init d
  if ret ≠ 0 then some (ret, [])
  else if ¬ calls.opens then some (-1, [])
  -- `lseek` returns the position, which is stored in an `int`.
  else if 0 < start ∧ (¬ calls.seeks ∨ cInt start = -1) then some (-1, [])
  else do
    let (d, ret) ← digestWindowLoop algo calls.content size calls.reads d start size
    if ret ≠ 0 then return (ret, []) else digestEnd algo d sig

/-- `digest_file` -/
def digestFile (calls : DigestFileCalls) (sig : Option Bytes) (d : algo.Ctx) : Option (Int × Bytes) :=
  match calls.stat with
  | none => some (-1, [])
  | some size => digestFileWindow algo calls sig d 0 size

end

/-- `digest_file_by_name`, with `digest_alloc` of an algorithm that has no
`alloc` of its own. -/
def digestFileByName (digests : List DigestAlgo) (name : Option CString) (calls : DigestFileCalls)
    (sig : Option Bytes) : Option (Int × Bytes) :=
  match digestAlgoGetByName digests name with
  | none => some (- EIO, [])
  | some algo => digestFile algo calls sig algo.zero

/-! ## What is digested -/

/-- The algorithm hashes what it is fed in pieces of at most 4096 bytes;
`Holds` says what a context was fed. -/
structure DigestAlgo.Hashes (algo : DigestAlgo) (Holds : algo.Ctx → Bytes → Prop) (hash : Bytes → Bytes) : Prop where
  init : ∀ d, ∃ d', algo.init d = (d', 0) ∧ Holds d' []
  update : ∀ d fed piece, Holds d fed → piece.length ≤ 4096 →
    ∃ d', algo.update d piece = some (d', 0) ∧ Holds d' (fed ++ piece)
  final : ∀ d fed, Holds d fed → ∃ d', algo.final d = some (d', 0, hash fed)

/-- What comes of a digest: it is written, or compared with `sig`. -/
def digestOutcome (length : Nat) (digest : Bytes) : Option Bytes → Int × Bytes
  | none => (0, digest)
  | some sig => (if sig.take length = digest then 0 else -EINVAL, [])

/-- The file can be opened at `start`. -/
def DigestFileCalls.OpensAt (calls : DigestFileCalls) (start : Nat) : Prop :=
  calls.opens ∧ (0 < start → calls.seeks ∧ start % 2 ^ 32 ≠ 2 ^ 32 - 1)

/-- A signature is as long as a digest. -/
def SigLong (length : Nat) (sig : Option Bytes) : Prop := ∀ s, sig = some s → length ≤ s.length

/-- The name, the length and the function of each algorithm. -/
def digestNames : List (CString × Nat × (Bytes → Bytes)) :=
  [(cstr "sha1", 20, sha1), (cstr "sha224", 28, Sha2.hash .sha224), (cstr "sha256", 32, Sha2.hash .sha256)]

section
variable {σ : Type} {transform : σ → Bytes → σ} {more : UInt32 → Nat → Bool} {m fuel : Nat}

/-- What a context was fed since it was initialised. -/
def ShaState.Fed (transform : σ → Bytes → σ) (start : σ) (s : ShaState σ) (fed : Bytes) : Prop :=
  s.Holds fed.length (absorb transform 64 (start, []) fed)

theorem ShaState.Fed.nil {s : ShaState σ} {start : σ} (h : s.Holds 0 (start, [])) : s.Fed transform start [] := by
  rw [ShaState.Fed, absorb, List.append_nil, List.length_nil, Nat.zero_div, runBlocks]
  exact h

theorem ShaState.Fed.update (ht : LoopTest more m) (hfuel : 4097 ≤ fuel) {start : σ} {s : ShaState σ} {fed piece : Bytes}
    (h : s.Fed transform start fed) (hpiece : piece.length ≤ 4096) :
    ∃ s', shaUpdate transform more fuel s piece = some s' ∧ s'.Fed transform start (fed ++ piece) := by
  obtain ⟨hdoes, hends⟩ := shaUpdate_spec ht h piece fuel
  obtain ⟨s', hs'⟩ := hends (.of_short ht.le.2 (by omega)) (by omega)
  obtain ⟨hholds, -⟩ := hdoes s' hs'
  rw [absorb_absorb (by decide), ← List.length_append] at hholds
  exact ⟨s', hs', hholds⟩

theorem ShaState.Fed.final (ht : LoopTest more m) (hfuel : 4097 ≤ fuel) {start : σ} {s : ShaState σ} {fed : Bytes}
    (h : s.Fed transform start fed) :
    ∃ s', shaFinal transform more fuel s = some s' ∧ s'.state = blockHash transform 64 shaPadding start fed := by
  obtain ⟨hdoes, hends⟩ := shaFinal_spec ht h fuel
  obtain ⟨s', hs'⟩ := hends (by omega)
  exact ⟨s', hs', hdoes s' hs'⟩

end

section
variable {fuel : Nat}

theorem sha1Algo_hashes (hfuel : 4097 ≤ fuel) :
    (sha1Algo fuel).Hashes (ShaState.Fed shaTransform sha1Start) sha1 where
  init d := ⟨sha1Init d, rfl, .nil ⟨rfl, rfl, rfl, rfl⟩⟩
  update d fed piece h hpiece := by
    obtain ⟨s', hs', hfed⟩ := ShaState.Fed.update sha1More_test hfuel h hpiece
    exact ⟨s', by simp only [sha1Algo, hs', Option.map_some], hfed⟩
  final d fed h := by
    obtain ⟨s', hs', hstate⟩ := ShaState.Fed.final sha1More_test hfuel h
    exact ⟨.wiped ⟨0, 0, 0, 0, 0⟩, by simp only [sha1Algo, hs', Option.map_some, hstate, sha1]⟩

theorem Sha2.algo_hashes (hfuel : 4097 ≤ fuel) (sha2 : Sha2) :
    (sha2.algo fuel).Hashes (ShaState.Fed sha256Transform sha2.start) sha2.hash where
  init d := ⟨sha2.init d, rfl, .nil (sha2.init_holds d)⟩
  update d fed piece h hpiece := by
    obtain ⟨s', hs', hfed⟩ := ShaState.Fed.update sha256More_test hfuel h hpiece
    exact ⟨s', by simp only [Sha2.algo, hs', Option.map_some], hfed⟩
  final d fed h := by
    obtain ⟨s', hs', hstate⟩ := ShaState.Fed.final sha256More_test hfuel h
    exact ⟨.wiped ⟨0, 0, 0, 0, 0, 0, 0, 0⟩, by simp only [Sha2.algo, hs', Option.map_some, hstate, Sha2.hash]⟩

theorem digests_found (hfuel : 4097 ≤ fuel) {name : CString} {length : Nat} {hash : Bytes → Bytes}
    (hname : (name, length, hash) ∈ digestNames) :
    ∃ algo Holds, digestAlgoGetByName (digests fuel) (some name) = some algo ∧ algo.length = length ∧
      algo.Hashes Holds hash := by
  have h1 : cstr "sha1" ≠ cstr "sha224" := by decide
  have h2 : cstr "sha1" ≠ cstr "sha256" := by decide
  have h3 : cstr "sha224" ≠ cstr "sha256" := by decide
  simp only [digestNames, List.mem_cons, List.not_mem_nil, or_false, Prod.mk.injEq] at hname
  obtain ⟨rfl, rfl, rfl⟩ | ⟨rfl, rfl, rfl⟩ | ⟨rfl, rfl, rfl⟩ := hname
  · refine ⟨_, _, ?_, rfl, sha1Algo_hashes hfuel⟩
    simp [digestAlgoGetByName, digests, sha1Algo, Sha2.algo, h1.symm, h2.symm]
  · refine ⟨_, _, ?_, rfl, Sha2.algo_hashes hfuel .sha224⟩
    simp [digestAlgoGetByName, digests, sha1Algo, Sha2.algo, h1, h3.symm]
  · refine ⟨_, _, ?_, rfl, Sha2.algo_hashes hfuel .sha256⟩
    simp [digestAlgoGetByName, digests, sha1Algo, Sha2.algo, h2, h3]

end

theorem cInt_eq_neg_one {start : Nat} : cInt start = -1 ↔ start % 2 ^ 32 = 2 ^ 32 - 1 := by
  unfold cInt
  simp only [Int.bmod]
  omega

/-- What is left to read behind a piece that was read. -/
theorem slice_read {α : Type} {pos k size : Nat} (hk : k ≤ size) (l : List α) :
    slice pos size l =
      slice pos k l ++ slice (pos + (slice pos k l).length) (size - (slice pos k l).length) l := by
  by_cases hroom : k ≤ l.length - pos
  · have hlen : (slice pos k l).length = k := by rw [slice, List.length_take, List.length_drop, Nat.min_eq_left hroom]
    rw [hlen, ← slice_eq_append, Nat.add_sub_cancel' hk]
  · have hall : ∀ n, k ≤ n → slice pos n l = l.drop pos := by
      intro n hn
      rw [slice, List.take_of_length_le (by rw [List.length_drop]; omega)]
    have hnil : l.drop (pos + (l.drop pos).length) = [] :=
      List.drop_eq_nil_of_le (by rw [List.length_drop]; omega)
    rw [hall size hk, hall k le_rfl, slice, hnil, List.take_nil, List.append_nil]

section
variable {algo : DigestAlgo} {Holds : algo.Ctx → Bytes → Prop} {hash : Bytes → Bytes}

/-- The loop feeds what the file has of the window, unless a read fails. -/
theorem digestWindowLoop_spec (h : algo.Hashes Holds hash) {content : Bytes} :
    ∀ {fuel : Nat} {reads : Stream' (Option Nat)} {d : algo.Ctx} {fed : Bytes} {pos size : Nat}, size ≤ fuel →
      Holds d fed →
      (∃ d', digestWindowLoop algo content fuel reads d pos size = some (d', 0) ∧ Holds d' (fed ++ slice pos size content)) ∨
        (∃ d', digestWindowLoop algo content fuel reads d pos size = some (d', -1)) ∧ ∃ i, reads.get i = none
  | 0, reads, d, fed, pos, size, hfuel, hfed => by
    rw [Nat.le_zero.1 hfuel]
    exact .inl ⟨d, rfl, by rwa [slice, List.take_zero, List.append_nil]⟩
  | fuel + 1, reads, d, fed, pos, size, hfuel, hfed => by
    rw [digestWindowLoop]
    by_cases h0 : size = 0
    · rw [if_pos h0, h0]
      exact .inl ⟨d, rfl, by rwa [slice, List.take_zero, List.append_nil]⟩
    · rw [if_neg h0]
      cases hread : reads.head with
      | none => exact .inr ⟨⟨d, rfl⟩, 0, hread⟩
      | some more =>
        have hpiece : min (min 4096 size) (more + 1) ≤ 4096 ∧ min (min 4096 size) (more + 1) ≤ size := by omega
        simp only [readAt, Option.map_some]
        rw [slice_read hpiece.2 content]
        obtain ⟨now, hnow⟩ : ∃ now, now = slice pos (min (min 4096 size) (more + 1)) content := ⟨_, rfl⟩
        have hlen : now.length ≤ 4096 := by
          rw [hnow]
          exact (slice_length_le _ _ _).trans hpiece.1
        rw [← hnow]
        by_cases hnil : now = []
        · -- Nothing is read only at the end of the file.
          have hend : content.length ≤ pos := by
            have := congrArg List.length (hnow.symm.trans hnil)
            rw [slice, List.length_take, List.length_drop, List.length_nil] at this
            omega
          rw [if_pos hnil, hnil, List.nil_append, slice, List.drop_eq_nil_of_le (by simpa using hend), List.take_nil,
            List.append_nil]
          exact .inl ⟨d, rfl, hfed⟩
        · have hpos := List.length_pos_iff.2 hnil
          obtain ⟨d', hd', hfed'⟩ := h.update d fed now hfed hlen
          simp only [if_neg hnil, hd', Option.bind_eq_bind, Option.bind_some, ne_eq, not_true_eq_false, if_false]
          rw [← List.append_assoc]
          obtain hdone | ⟨hfails, i, hi⟩ :=
            @digestWindowLoop_spec h content fuel reads.tail d' (fed ++ now) (pos + now.length) (size - now.length)
              (by omega) hfed'
          · exact .inl hdone
          · exact .inr ⟨hfails, i + 1, hi⟩

theorem digestEnd_spec (h : algo.Hashes Holds hash) {d : algo.Ctx} {fed : Bytes} (hfed : Holds d fed) :
    ∀ {sig : Option Bytes}, SigLong algo.length sig → digestEnd algo d sig = some (digestOutcome algo.length (hash fed) sig)
  | none, _ => by
    obtain ⟨d', hd'⟩ := h.final d fed hfed
    rw [digestEnd, hd', digestOutcome]
    rfl
  | some sig, hsig => by
    obtain ⟨d', hd'⟩ := h.final d fed hfed
    have hlong : ¬ sig.length < algo.length := Nat.not_lt.2 (hsig sig rfl)
    simp [digestEnd, hd', digestOutcome, hlong]

/-- A window comes to what its bytes hash to, unless a call fails. -/
theorem digestFileWindow_spec (h : algo.Hashes Holds hash) (calls : DigestFileCalls) {sig : Option Bytes}
    (hsig : SigLong algo.length sig) (d : algo.Ctx) (start size : Nat) :
    (¬ calls.OpensAt start → digestFileWindow algo calls sig d start size = some (-1, [])) ∧
      (calls.OpensAt start →
        digestFileWindow algo calls sig d start size =
            some (digestOutcome algo.length (hash (slice start size calls.content)) sig) ∨
          digestFileWindow algo calls sig d start size = some (-1, []) ∧ ∃ i, calls.reads.get i = none) := by
  obtain ⟨d₀, hd₀, hfed₀⟩ := h.init d
  have hopens : calls.OpensAt start ↔
      ¬ ¬ calls.opens = true ∧ ¬ (0 < start ∧ (¬ calls.seeks = true ∨ cInt start = -1)) := by
    rw [DigestFileCalls.OpensAt, cInt_eq_neg_one]
    tauto
  simp only [digestFileWindow, hd₀, ne_eq, not_true_eq_false, if_false]
  rw [hopens]
  constructor
  · intro hclosed
    by_cases ho : calls.opens = true
    · rw [if_neg (not_not.2 ho), if_pos (by tauto)]
    · rw [if_pos ho]
  · intro hopen
    rw [if_neg hopen.1, if_neg hopen.2]
    obtain ⟨d', hd', hfed'⟩ | ⟨⟨d', hd'⟩, hfails⟩ := @digestWindowLoop_spec algo Holds hash h calls.content size calls.reads
      d₀ [] start size le_rfl hfed₀
    · left
      rw [hd']
      exact digestEnd_spec h hfed' hsig
    · right
      rw [hd']
      exact ⟨rfl, hfails⟩

end

/-- **A window's digest is that of its bytes**: `hash` is written for a window
exactly if the file is opened and the start is not one that an `int` turns into
-1, unless a `read` fails. -/
theorem digest_window_iff {fuel : Nat} (hfuel : 4097 ≤ fuel) {name : CString} {length : Nat} {hash : Bytes → Bytes}
    (hname : (name, length, hash) ∈ digestNames) (calls : DigestFileCalls) (start size : Nat) :
    ∃ algo, digestAlgoGetByName (digests fuel) (some name) = some algo ∧ ∀ d,
      ∃ ret md, digestFileWindow algo calls none d start size = some (ret, md) ∧
        (ret = 0 → md = hash (slice start size calls.content) ∧ calls.OpensAt start) ∧
        ((∀ i, calls.reads.get i ≠ none) → (ret = 0 ↔ calls.OpensAt start)) := by
  obtain ⟨algo, Holds, hfound, -, hhash⟩ := digests_found hfuel hname
  refine ⟨algo, hfound, fun d => ?_⟩
  have hsig : SigLong algo.length none := fun s hs => by cases hs
  obtain ⟨hclosed, hopen⟩ := digestFileWindow_spec hhash calls hsig d start size
  by_cases ho : calls.OpensAt start
  · obtain heq | ⟨heq, i, hi⟩ := hopen ho
    · exact ⟨0, _, heq, fun _ => ⟨rfl, ho⟩, fun _ => iff_of_true rfl ho⟩
    · exact ⟨-1, [], heq, by simp, fun hreads => absurd hi (hreads i)⟩
  · exact ⟨-1, [], hclosed ho, by simp, fun _ => iff_of_false (by decide) ho⟩

/-- A file of three bytes, of which each `read` delivers one. -/
def abcCalls : DigestFileCalls := ⟨[97, 98, 99], some 3, true, true, Stream'.const (some 0)⟩

theorem digest_window_abc : ∃ algo, digestAlgoGetByName (digests 4097) (some (cstr "sha256")) = some algo ∧
    ∀ d, ∃ ret md, digestFileWindow algo abcCalls none d (2 ^ 32 - 1) 1 = some (ret, md) ∧ ret ≠ 0 := by
  obtain ⟨algo, hfound, hwindow⟩ := @digest_window_iff 4097 le_rfl (cstr "sha256") 32 (Sha2.hash .sha256)
    (by simp [digestNames]) abcCalls (2 ^ 32 - 1) 1
  refine ⟨algo, hfound, fun d => ?_⟩
  obtain ⟨ret, md, heq, hzero, -⟩ := hwindow d
  refine ⟨ret, md, heq, fun hret => ?_⟩
  obtain ⟨-, -, hseek⟩ := hzero hret
  exact (hseek (by decide)).2 rfl

/-- **The digest of a file does not depend on how it is read**: it is that of
its bytes, of whatever size the file is, and a file passes a signature exactly
if that is its digest. Else a call on the file failed. -/
theorem digest_by_name {fuel : Nat} (hfuel : 4097 ≤ fuel) {name : CString} {length : Nat} {hash : Bytes → Bytes}
    (hname : (name, length, hash) ∈ digestNames) (calls : DigestFileCalls) {sig : Option Bytes}
    (hsig : SigLong length sig) :
    (∃ size, calls.stat = some size ∧ calls.opens = true ∧ digestFileByName (digests fuel) (some name) calls sig =
        some (digestOutcome length (hash (calls.content.take size)) sig)) ∨
      digestFileByName (digests fuel) (some name) calls sig = some (-1, []) ∧
        (calls.stat = none ∨ calls.opens = false ∨ ∃ i, calls.reads.get i = none) := by
  obtain ⟨algo, Holds, hfound, rfl, hhash⟩ := digests_found hfuel hname
  rw [digestFileByName, hfound]
  simp only [digestFile]
  cases hstat : calls.stat with
  | none => exact .inr ⟨rfl, .inl rfl⟩
  | some size =>
    obtain ⟨hclosed, hopen⟩ := digestFileWindow_spec hhash calls hsig algo.zero 0 size
    rw [slice_zero_left] at hopen
    cases ho : calls.opens with
    | false =>
      have hshut : ¬ calls.OpensAt 0 := fun hopens => absurd hopens.1 (by rw [ho]; decide)
      exact .inr ⟨hclosed hshut, .inr (.inl rfl)⟩
    | true =>
      obtain heq | ⟨heq, hfails⟩ := hopen ⟨ho, fun hpos => absurd hpos (lt_irrefl 0)⟩
      · exact .inl ⟨size, rfl, rfl, heq⟩
      · exact .inr ⟨heq, .inr (.inr hfails)⟩

theorem digest_by_name_abc :
    digestFileByName (digests 4097) (some (cstr "sha1")) abcCalls none = some (0, sha1 [97, 98, 99]) := by
  obtain ⟨size, hsize, -, heq⟩ | ⟨-, hstat | hopens | ⟨i, hi⟩⟩ := @digest_by_name 4097 le_rfl (cstr "sha1") 20 sha1
    (by simp [digestNames]) abcCalls none (fun s hs => by cases hs)
  · cases hsize
    exact heq
  · cases hstat
  · cases hopens
  · cases hi

end DtUtils
