/-
`crypto/hmac.c` over any digest: an object that is set up again for every key
and every message. The key is a block of memory that `set_key` allocates and
frees; `none` results are accesses to one that was freed, or outside one.
-/
import DtUtils.Common
import DtUtils.Lib.Hash
import DtUtils.Sha2

namespace DtUtils
open Lib

/-- `dh->key` -/
inductive KeyPtr
  | null
  | block (bytes : Bytes)
  | freed
deriving DecidableEq

/-- `struct digest_hmac_ctx`; `d` is the context of the digest underneath. -/
structure DigestHmacCtx (σ : Type) where
  d : σ
  ipad : Bytes
  opad : Bytes
  key : KeyPtr
  keylen : Nat

section
variable {σ : Type} (algo : HashAlgo σ) (padLength : Nat)

/-- `digest_alloc` and `digest_hmac_alloc` -/
def digestHmacAlloc : DigestHmacCtx σ :=
  ⟨algo.zero, List.replicate padLength 0, List.replicate padLength 0, .null, 0⟩

/-- `free` -/
def KeyPtr.free : KeyPtr → Option KeyPtr
  | .null => some .null
  | .block _ => some .freed
  | .freed => none

/-- The first `len` bytes at a pointer. -/
def KeyPtr.bytes (len : Nat) : KeyPtr → Option Bytes
  | .block bs => if len ≤ bs.length then some (bs.take len) else none
  | _ => none

/-- `digest_generic_digest` -/
def digestGenericDigest (d : σ) (data : KeyPtr) (len : Nat) : Option (σ × Int × Bytes) :=
  if data = .null ∨ len = 0 then some (d, -EINVAL, [])
  else
    let (d, ret) := algo.init d
    if ret ≠ 0 then some (d, ret, [])
    else do
      let (d, ret) := algo.update d (← data.bytes len)
      if ret ≠ 0 then some (d, ret, []) else some (algo.final d)

/-- `digest_hmac_set_key` -/
def digestHmacSetKey (c : DigestHmacCtx σ) (key : Bytes) : Option (DigestHmacCtx σ × Int) := do
  let old ← c.key.free
  if padLength < key.length then
    -- It is the old key that is digested, and the sum is freed in any case.
    let (d, ret, _) ← digestGenericDigest algo c.d old c.keylen
    if ret ≠ 0 then return ({ c with d := d, key := old }, ret)
    else return ({ c with d := d, key := .freed, keylen := algo.length }, 0)
  else return ({ c with key := .block key, keylen := key.length }, 0)

/-- A pad of `digest_hmac_init`: filled, and the key added to it. -/
def hmacFill (fill : UInt8) (keylen : Nat) (key : KeyPtr) : Option Bytes :=
  if keylen = 0 then some (List.replicate padLength fill)
  else if padLength < keylen then none
  else (key.bytes keylen).map fun bs => bs.map (fill ^^^ ·) ++ List.replicate (padLength - keylen) fill

/-- `digest_hmac_init` -/
def digestHmacInit (c : DigestHmacCtx σ) : Option (DigestHmacCtx σ × Int) := do
  let c := { c with ipad := ← hmacFill padLength 0x36 c.keylen c.key, opad := ← hmacFill padLength 0x5c c.keylen c.key }
  let (d, ret) := algo.init c.d
  if ret ≠ 0 then return ({ c with d := d }, ret)
  else
    let (d, ret) := algo.update d c.ipad
    return ({ c with d := d }, ret)

/-- `digest_hmac_update` -/
def digestHmacUpdate (c : DigestHmacCtx σ) (data : Bytes) : DigestHmacCtx σ × Int :=
  let (d, ret) := algo.update c.d data
  ({ c with d := d }, ret)

/-- `digest_hmac_final`, with what it writes. -/
def digestHmacFinal (c : DigestHmacCtx σ) : DigestHmacCtx σ × Int × Bytes :=
  let (d, ret, tmp) := algo.final c.d
  if ret ≠ 0 then ({ c with d := d }, ret, [])
  else
    let (d, ret) := algo.init d
    if ret ≠ 0 then ({ c with d := d }, ret, [])
    else
      let (d, ret) := algo.update d c.opad
      if ret ≠ 0 then ({ c with d := d }, ret, [])
      else
        let (d, ret) := algo.update d tmp
        if ret ≠ 0 then ({ c with d := d }, ret, [])
        else
          let (d, ret, md) := algo.final d
          ({ c with d := d }, ret, md)

/-! ## Using the object -/

/-- A call on the object. `digest_generic_verify` is a `final` whose result is
compared. -/
inductive HmacCall
  | setKey (key : Bytes)
  | init
  | update (data : Bytes)
  | final
deriving DecidableEq

/-- The object after a call, and the return value. -/
def HmacCall.exec (c : DigestHmacCtx σ) : HmacCall → Option (DigestHmacCtx σ × Int)
  | .setKey key => digestHmacSetKey algo padLength c key
  | .init => digestHmacInit algo padLength c
  | .update data => some (digestHmacUpdate algo c data)
  | .final =>
    let (c, ret, _) := digestHmacFinal algo c
    some (c, ret)

/-- The object after some calls, whatever they return. -/
def hmacCalls (c : DigestHmacCtx σ) : List HmacCall → Option (DigestHmacCtx σ)
  | [] => some c
  | call :: calls => do
    let (c, _) ← call.exec algo padLength c
    hmacCalls c calls

/-- Some calls that all return 0. -/
def hmacCallsOk (c : DigestHmacCtx σ) : List HmacCall → Option (DigestHmacCtx σ)
  | [] => some c
  | call :: calls => do
    let (c, ret) ← call.exec algo padLength c
    if ret ≠ 0 then none else hmacCallsOk c calls

/-- After the `earlier` calls on a new object, setting `key` and digesting the
message in these pieces succeeds and yields `md`. -/
def HmacYields (earlier : List HmacCall) (key : Bytes) (pieces : List Bytes) (md : Bytes) : Prop :=
  ∃ c c', hmacCalls algo padLength (digestHmacAlloc algo padLength) earlier = some c ∧
    hmacCallsOk algo padLength c (.setKey key :: .init :: pieces.map .update) = some c' ∧
    (digestHmacFinal algo c').2 = (0, md)

/-- A key of more than a block was set when one that fits had been set. -/
def LongAfterKey (calls : List HmacCall) : Prop :=
  ∃ a b c k l, calls = a ++ .setKey k :: (b ++ .setKey l :: c) ∧ k.length ≤ padLength ∧ padLength < l.length

/-! ## The key -/

/-- The object has no key, or one that fits. -/
inductive DigestHmacCtx.Usable : DigestHmacCtx σ → Prop
  | null {c} : c.key = .null → c.keylen = 0 → Usable c
  | block {c bs} : c.key = .block bs → c.keylen = bs.length → bs.length ≤ padLength → Usable c

end

section
variable {σ : Type} {algo : HashAlgo σ} {padLength : Nat}

theorem longAfterKey_nil : ¬ LongAfterKey padLength [] := by
  rintro ⟨a, b, c, k, l, h, -⟩
  simp at h

/-- The first call does not matter, or sets a key that fits. -/
theorem longAfterKey_cons {call : HmacCall} {calls : List HmacCall} : LongAfterKey padLength (call :: calls) ↔
    LongAfterKey padLength calls ∨ (∃ k, call = .setKey k ∧ k.length ≤ padLength) ∧
      ∃ l, .setKey l ∈ calls ∧ padLength < l.length := by
  constructor
  · rintro ⟨a, b, c, k, l, h, hk, hl⟩
    cases a with
    | nil =>
      simp only [List.nil_append, List.cons.injEq] at h
      exact .inr ⟨⟨k, h.1, hk⟩, l, by simp [h.2], hl⟩
    | cons x a =>
      simp only [List.cons_append, List.cons.injEq] at h
      exact .inl ⟨a, b, c, k, l, h.2, hk, hl⟩
  · rintro (⟨a, b, c, k, l, rfl, hk, hl⟩ | ⟨⟨k, rfl, hk⟩, l, hmem, hl⟩)
    · exact ⟨call :: a, b, c, k, l, rfl, hk, hl⟩
    · obtain ⟨b, c, rfl⟩ := List.append_of_mem hmem
      exact ⟨[], b, c, k, l, rfl, hk, hl⟩

theorem hmacFill_usable {c : DigestHmacCtx σ} (h : c.Usable padLength) (fill : UInt8) :
    ∃ pad, hmacFill padLength fill c.keylen c.key = some pad := by
  cases h with
  | null _ hlen => exact ⟨_, by rw [hmacFill, if_pos hlen]⟩
  | block hkey hlen hle =>
    rw [hmacFill, hkey, hlen]
    split
    · exact ⟨_, rfl⟩
    · rw [if_neg (by omega), KeyPtr.bytes, if_pos le_rfl]
      exact ⟨_, rfl⟩

theorem digestHmacInit_key {c c' : DigestHmacCtx σ} {ret : Int} (h : digestHmacInit algo padLength c = some (c', ret)) :
    c'.key = c.key ∧ c'.keylen = c.keylen := by
  simp only [digestHmacInit, Option.bind_eq_bind, Option.bind_eq_some_iff] at h
  obtain ⟨ipad, -, opad, -, h⟩ := h
  split at h <;>
  · cases h
    exact ⟨rfl, rfl⟩

theorem digestHmacFinal_key (c : DigestHmacCtx σ) :
    (digestHmacFinal algo c).1.key = c.key ∧ (digestHmacFinal algo c).1.keylen = c.keylen := by
  simp only [digestHmacFinal]
  repeat' split
  all_goals exact ⟨rfl, rfl⟩

theorem DigestHmacCtx.Usable.same {c c' : DigestHmacCtx σ} (h : c.Usable padLength)
    (hs : c'.key = c.key ∧ c'.keylen = c.keylen) :
    c'.Usable padLength := by
  cases h with
  | null hkey hlen => exact .null (hs.1.trans hkey) (hs.2.trans hlen)
  | block hkey hlen hle => exact .block (hs.1.trans hkey) (hs.2.trans hlen) hle

theorem digestHmacSetKey_fits {c : DigestHmacCtx σ} (h : c.Usable padLength) {key : Bytes}
    (hkey : key.length ≤ padLength) :
    digestHmacSetKey algo padLength c key = some ({ c with key := .block key, keylen := key.length }, 0) := by
  have hfree : ∃ old, c.key.free = some old := by
    cases h with
    | null hk => exact ⟨.null, by rw [hk, KeyPtr.free]⟩
    | block hk => exact ⟨.freed, by rw [hk, KeyPtr.free]⟩
  obtain ⟨old, hfree⟩ := hfree
  simp only [digestHmacSetKey, hfree, Option.bind_eq_bind, Option.bind_some]
  rw [if_neg (by omega)]
  rfl

theorem digestHmacSetKey_null {c : DigestHmacCtx σ} (hnull : c.key = .null) {key : Bytes}
    (hkey : padLength < key.length) :
    digestHmacSetKey algo padLength c key = some (c, -EINVAL) := by
  obtain ⟨d, ipad, opad, k, keylen⟩ := c
  cases hnull
  simp only [digestHmacSetKey, KeyPtr.free, digestGenericDigest, Option.bind_eq_bind, Option.bind_some]
  rw [if_pos hkey]
  rfl

/-- The old key is used, or kept, after it was freed. -/
theorem digestHmacSetKey_block {c c' : DigestHmacCtx σ} {bs key : Bytes} {ret : Int} (hblock : c.key = .block bs)
    (hkey : padLength < key.length) (h : digestHmacSetKey algo padLength c key = some (c', ret)) :
    c'.key = .freed ∧ ret ≠ 0 := by
  simp only [digestHmacSetKey, hblock, KeyPtr.free, Option.bind_eq_bind, Option.bind_some, if_pos hkey,
    Option.bind_eq_some_iff] at h
  obtain ⟨⟨d, r, sum⟩, hdigest, h⟩ := h
  have hr : r ≠ 0 := by
    simp only [digestGenericDigest] at hdigest
    split at hdigest
    · cases hdigest
      decide
    split at hdigest
    · next hinit =>
      cases hdigest
      exact hinit
    · simp [KeyPtr.bytes] at hdigest
  rw [if_pos hr] at h
  cases h
  exact ⟨rfl, hr⟩

/-- A call on a usable object that sets no long key, or sets it on an object
that has none. -/
theorem HmacCall.exec_usable {c : DigestHmacCtx σ} (h : c.Usable padLength) (call : HmacCall)
    (hlong : c.key ≠ .null → ∀ l, call = .setKey l → l.length ≤ padLength) :
    ∃ c' ret, call.exec algo padLength c = some (c', ret) ∧ c'.Usable padLength ∧
      (c'.key ≠ .null ↔ c.key ≠ .null ∨ ∃ k, call = .setKey k ∧ k.length ≤ padLength) := by
  cases call with
  | setKey key =>
    by_cases hkey : key.length ≤ padLength
    · exact ⟨_, _, digestHmacSetKey_fits h hkey, .block rfl rfl hkey, fun _ => .inr ⟨key, rfl, hkey⟩, fun _ => nofun⟩
    · have hnull : c.key = .null := by
        by_contra hne
        exact hkey (hlong hne key rfl)
      refine ⟨_, _, digestHmacSetKey_null hnull (by omega), h, .inl, ?_⟩
      rintro (hne | ⟨k, he, hk⟩)
      · exact hne
      · cases he
        exact absurd hk hkey
  | init =>
    obtain ⟨ipad, hi⟩ := hmacFill_usable h 0x36
    obtain ⟨opad, ho⟩ := hmacFill_usable h 0x5c
    obtain ⟨⟨c', ret⟩, hc⟩ : ∃ r, digestHmacInit algo padLength c = some r := by
      simp only [digestHmacInit, hi, ho, Option.bind_eq_bind, Option.bind_some]
      split <;> exact ⟨_, rfl⟩
    have hsame := digestHmacInit_key hc
    refine ⟨c', ret, hc, h.same hsame, fun hne => .inl (hsame.1 ▸ hne), ?_⟩
    rintro (hne | ⟨k, he, -⟩)
    · exact hsame.1.symm ▸ hne
    · cases he
  | update data =>
    refine ⟨_, _, rfl, h.same ⟨rfl, rfl⟩, .inl, ?_⟩
    rintro (hne | ⟨k, he, -⟩)
    · exact hne
    · cases he
  | final =>
    have hsame := @digestHmacFinal_key σ algo c
    refine ⟨_, _, rfl, h.same hsame, fun hne => .inl (hsame.1 ▸ hne), ?_⟩
    rintro (hne | ⟨k, he, -⟩)
    · exact hsame.1.symm ▸ hne
    · cases he

/-- Once the key was freed, it stays so until it is freed again. -/
theorem HmacCall.exec_freed {c c' : DigestHmacCtx σ} {call : HmacCall} {ret : Int} (hfreed : c.key = .freed)
    (h : call.exec algo padLength c = some (c', ret)) : c'.key = .freed := by
  cases call with
  | setKey key =>
    simp only [exec, digestHmacSetKey, hfreed, KeyPtr.free, Option.bind_eq_bind, Option.bind_none, reduceCtorEq] at h
  | init => exact (digestHmacInit_key h).1.trans hfreed
  | update data =>
    cases h
    exact hfreed
  | final =>
    cases h
    exact (digestHmacFinal_key c).1.trans hfreed

theorem hmacCalls_freed : ∀ {calls : List HmacCall} {c c' : DigestHmacCtx σ}, c.key = .freed →
    hmacCalls algo padLength c calls = some c' → c'.key = .freed
  | [], _, _, hfreed, h => by
    cases h
    exact hfreed
  | call :: calls, c, c', hfreed, h => by
    simp only [hmacCalls, Option.bind_eq_bind, Option.bind_eq_some_iff] at h
    obtain ⟨⟨c₁, ret⟩, hexec, h⟩ := h
    exact hmacCalls_freed (HmacCall.exec_freed hfreed hexec) h

/-- Calls that set no long key after one that fits leave the object usable. -/
theorem hmacCalls_usable : ∀ {calls : List HmacCall} {c : DigestHmacCtx σ}, c.Usable padLength →
    ¬ LongAfterKey padLength calls → (c.key ≠ .null → ∀ l, HmacCall.setKey l ∈ calls → l.length ≤ padLength) →
    ∃ c', hmacCalls algo padLength c calls = some c' ∧ c'.Usable padLength
  | [], c, h, _, _ => ⟨c, rfl, h⟩
  | call :: calls, c, h, hno, hlong => by
    rw [longAfterKey_cons, not_or] at hno
    obtain ⟨hrest, hfirst⟩ := hno
    obtain ⟨c₁, ret, hexec, h₁, hkeyed⟩ := HmacCall.exec_usable h call
      fun hne l he => hlong hne l (he ▸ List.mem_cons_self)
    obtain ⟨c', hc', h'⟩ := hmacCalls_usable h₁ hrest fun hne l hl => by
      rcases hkeyed.1 hne with hne | hset
      · exact hlong hne l (List.mem_cons_of_mem _ hl)
      · by_contra hgt
        exact hfirst ⟨hset, l, hl, by omega⟩
    exact ⟨c', by rw [hmacCalls, hexec]; exact hc', h'⟩

/-- Otherwise the key they leave, if they come that far, was freed. -/
theorem hmacCalls_long : ∀ {calls : List HmacCall} {c c' : DigestHmacCtx σ}, c.Usable padLength →
    (LongAfterKey padLength calls ∨ c.key ≠ .null ∧ ∃ l, .setKey l ∈ calls ∧ padLength < l.length) →
    hmacCalls algo padLength c calls = some c' → c'.key = .freed
  | [], _, _, _, hlong, _ => by
    rcases hlong with hlong | ⟨-, l, hmem, -⟩
    · exact absurd hlong longAfterKey_nil
    · cases hmem
  | call :: calls, c, c', h, hlong, hrun => by
    simp only [hmacCalls, Option.bind_eq_bind, Option.bind_eq_some_iff] at hrun
    obtain ⟨⟨c₁, ret⟩, hexec, hrun⟩ := hrun
    by_cases hbad : c.key ≠ .null ∧ ∃ l, call = .setKey l ∧ padLength < l.length
    · obtain ⟨hne, l, rfl, hl⟩ := hbad
      cases h with
      | null hnull => exact absurd hnull hne
      | block hblock => exact hmacCalls_freed (digestHmacSetKey_block hblock hl hexec).1 hrun
    · have hfits : c.key ≠ .null → ∀ l, call = .setKey l → l.length ≤ padLength := fun hne l he => by
        by_contra hgt
        exact hbad ⟨hne, l, he, by omega⟩
      obtain ⟨c₂, r, hexec', h₂, hkeyed⟩ := @HmacCall.exec_usable σ algo padLength c h call hfits
      cases hexec.symm.trans hexec'
      refine hmacCalls_long h₂ ?_ hrun
      rw [longAfterKey_cons] at hlong
      rcases hlong with (hrest | ⟨hset, hmem⟩) | ⟨hne, l, hmem, hl⟩
      · exact .inl hrest
      · exact .inr ⟨hkeyed.2 (.inr hset), hmem⟩
      · rcases List.mem_cons.1 hmem with rfl | hmem
        · exact absurd (hfits hne l rfl) (by omega)
        · exact .inr ⟨hkeyed.2 (.inl hne), l, hmem, hl⟩

/-! ## The digest -/

theorem hmacFill_block {hash : Bytes → Bytes} {key : Bytes} (h : key.length ≤ padLength) (fill : UInt8) :
    hmacFill padLength fill key.length (.block key) = some ((hmacKey hash padLength key).map (fill ^^^ ·)) := by
  rw [hmacKey_map_xor h, hmacFill]
  split
  · next h0 =>
    rw [List.eq_nil_of_length_eq_zero h0]
    rfl
  · rw [if_neg (by omega), KeyPtr.bytes, if_pos le_rfl, List.take_length]
    rfl

variable {hash : Bytes → Bytes}

theorem digestHmacInit_block (hH : algo.Computes hash) {c : DigestHmacCtx σ} {key : Bytes} (hkey : c.key = .block key)
    (hlen : c.keylen = key.length) (hle : key.length ≤ padLength) :
    ∃ c', digestHmacInit algo padLength c = some (c', 0) ∧
      c'.d = algo.feed (algo.init c.d).1 [(hmacKey hash padLength key).map (0x36 ^^^ ·)] ∧
      c'.opad = (hmacKey hash padLength key).map (0x5c ^^^ ·) := by
  have hfill (fill) : hmacFill padLength fill c.keylen c.key =
      some ((hmacKey hash padLength key).map (fill ^^^ ·)) := by
    rw [hkey, hlen, hmacFill_block hle]
  simp only [digestHmacInit, hfill, Option.bind_eq_bind, Option.bind_some, hH.init_ok]
  rw [if_neg (by simp), hH.update_ok]
  exact ⟨_, rfl, rfl, rfl⟩

theorem hmacCallsOk_update (hH : algo.Computes hash) : ∀ (pieces : List Bytes) (c : DigestHmacCtx σ),
    hmacCallsOk algo padLength c (pieces.map .update) = some { c with d := algo.feed c.d pieces }
  | [], _ => rfl
  | piece :: pieces, c => by
    simp only [List.map_cons, hmacCallsOk, HmacCall.exec, digestHmacUpdate, Option.bind_eq_bind, Option.bind_some,
        hH.update_ok]
    rw [if_neg (by simp), hmacCallsOk_update hH pieces]
    rfl

/-- What the object was fed is hashed, and then the sum behind `opad`. -/
theorem digestHmacFinal_eq (hH : algo.Computes hash) {c : DigestHmacCtx σ} {d : σ} {pieces : List Bytes}
    (hfed : c.d = algo.feed (algo.init d).1 pieces) :
    (digestHmacFinal algo c).2 = (0, hash (c.opad ++ hash pieces.flatten)) := by
  have hinner := hH.final d pieces
  rw [← hfed] at hinner
  have houter := hH.final (algo.final c.d).1 [c.opad, hash pieces.flatten]
  simp only [HashAlgo.feed, List.foldl_cons, List.foldl_nil] at houter
  simp only [digestHmacFinal, hinner, hH.init_ok, hH.update_ok, houter]
  simp

theorem hmacYields_of_fits (hH : algo.Computes hash) {earlier : List HmacCall} {key : Bytes}
    (hkey : key.length ≤ padLength)
    (hno : ¬ LongAfterKey padLength earlier) (pieces : List Bytes) :
    HmacYields algo padLength earlier key pieces (hmac hash padLength key pieces.flatten) := by
  obtain ⟨c, hc, husable⟩ := @hmacCalls_usable σ algo padLength earlier (digestHmacAlloc algo padLength)
    (.null rfl rfl) hno fun hne => absurd rfl hne
  have hset := @digestHmacSetKey_fits σ algo padLength c husable key hkey
  obtain ⟨c₂, hinit, hd, hopad⟩ := @digestHmacInit_block σ algo padLength hash hH
    { c with key := .block key, keylen := key.length } key rfl rfl hkey
  refine ⟨c, { c₂ with d := algo.feed c₂.d pieces }, hc, ?_, ?_⟩
  · simp only [hmacCallsOk, HmacCall.exec, hset, hinit, Option.bind_eq_bind, Option.bind_some]
    exact hmacCallsOk_update hH pieces c₂
  · have hfed : algo.feed c₂.d pieces =
        algo.feed (algo.init c.d).1 ((hmacKey hash padLength key).map (0x36 ^^^ ·) :: pieces) := by
      rw [hd]
      rfl
    rw [digestHmacFinal_eq hH hfed, hopad, List.flatten_cons]
    rfl

/-- A result, whichever, needs that no freed key is digested or freed again. -/
theorem HmacYields.fits {earlier : List HmacCall} {key md : Bytes} {pieces : List Bytes}
    (h : HmacYields algo padLength earlier key pieces md) : key.length ≤ padLength ∧
        ¬ LongAfterKey padLength earlier := by
  have hnew : (digestHmacAlloc algo padLength).Usable padLength := .null rfl rfl
  obtain ⟨c, c', hrun, hok, -⟩ := h
  simp only [hmacCallsOk, HmacCall.exec, Option.bind_eq_bind, Option.bind_eq_some_iff] at hok
  obtain ⟨⟨c₁, ret⟩, hset, hok⟩ := hok
  have hret : ret = 0 := by
    by_contra hne
    simp [hne] at hok
  subst hret
  have hno : ¬ LongAfterKey padLength earlier := fun hlong => by
    have hfreed := hmacCalls_long hnew (.inl hlong) hrun
    simp [digestHmacSetKey, hfreed, KeyPtr.free] at hset
  refine ⟨?_, hno⟩
  by_contra hgt
  obtain ⟨c₂, hc₂, husable⟩ := hmacCalls_usable hnew hno fun hne => absurd rfl hne
  cases hrun.symm.trans hc₂
  cases husable with
  | null hnull => cases hset.symm.trans (digestHmacSetKey_null hnull (by omega))
  | block hblock => exact (digestHmacSetKey_block hblock (by omega) hset).2 rfl

end

/-! ## SHA-256 -/

/-- The blocks that are there are not changed by what follows them. -/
theorem sha256Blocks_append : ∀ (n : Nat) (state : Sha256Words) (src rest : Bytes), 64 * n ≤ src.length →
    sha256Blocks n state (src ++ rest) = ((sha256Blocks n state src).1, (sha256Blocks n state src).2 ++ rest)
  | 0, _, _, _, _ => rfl
  | n + 1, state, src, rest, h => by
    rw [sha256Blocks, sha256Blocks, List.take_append_of_le_length (by omega), List.drop_append_of_le_length (by omega),
      sha256Blocks_append n _ _ _ (by rw [List.length_drop]; omega)]

theorem sha256Blocks_add : ∀ (n m : Nat) (state : Sha256Words) (src : Bytes),
    sha256Blocks (n + m) state src = sha256Blocks m (sha256Blocks n state src).1 (sha256Blocks n state src).2
  | 0, m, _, _ => by
    rw [Nat.zero_add]
    rfl
  | n + 1, m, state, src => by
    rw [Nat.add_right_comm, sha256Blocks, sha256Blocks_add n m]
    rfl

theorem sha256Blocks_length : ∀ (n : Nat) (state : Sha256Words) (src : Bytes),
    (sha256Blocks n state src).2.length = src.length - 64 * n
  | 0, _, _ => rfl
  | n + 1, state, src => by
    rw [sha256Blocks, sha256Blocks_length n, List.length_drop]
    omega

/-- All blocks of `src`, and then those of what is left and `rest`. -/
theorem sha256Blocks_split (state : Sha256Words) (src rest : Bytes) :
    sha256Blocks ((src ++ rest).length / 64) state (src ++ rest) =
      sha256Blocks (((sha256Blocks (src.length / 64) state src).2 ++ rest).length / 64)
        (sha256Blocks (src.length / 64) state src).1 ((sha256Blocks (src.length / 64) state src).2 ++ rest) := by
  have hlen := sha256Blocks_length (src.length / 64) state src
  have hblocks : (src ++ rest).length / 64 =
      src.length / 64 + ((sha256Blocks (src.length / 64) state src).2 ++ rest).length / 64 := by
    rw [List.length_append, List.length_append, hlen]
    omega
  rw [hblocks, sha256Blocks_add, sha256Blocks_append _ _ _ _ (by omega)]

/-- It does not matter how the data is split. -/
theorem sha256Update_update (s : Sha256State) (a b : Bytes) :
    sha256Update (sha256Update s a) b = sha256Update s (a ++ b) := by
  simp only [sha256Update]
  rw [← List.append_assoc, sha256Blocks_split s.state (s.buf ++ a) b, @List.length_append _ a, Nat.add_assoc]

/-- The digest of a message -/
def sha256 (m : Bytes) : Bytes := sha256Final (sha256Update sha256Init m)

/-- `m256` -/
def sha256Algo : HashAlgo Sha256State where
  length := 32
  zero := ⟨⟨0, 0, 0, 0, 0, 0, 0, 0⟩, 0, []⟩
  init _ := (sha256Init, 0)
  update s data := (sha256Update s data, 0)
  final s := (⟨⟨0, 0, 0, 0, 0, 0, 0, 0⟩, 0, []⟩, 0, sha256Final s)

theorem sha256Algo_feed (s : Sha256State) : ∀ (pieces : List Bytes) (fed : Bytes),
    sha256Algo.feed (sha256Update s fed) pieces = sha256Update s (fed ++ pieces.flatten)
  | [], fed => by
    rw [List.flatten_nil, List.append_nil]
    rfl
  | piece :: pieces, fed => by
    rw [List.flatten_cons, ← List.append_assoc, ← sha256Algo_feed s pieces, ← sha256Update_update]
    rfl

theorem sha256Algo_computes : sha256Algo.Computes sha256 where
  init_ok _ := rfl
  update_ok _ _ := rfl
  final_ok _ := rfl
  final_eq _ pieces := congrArg sha256Final (sha256Algo_feed sha256Init pieces [])
  hash_length _ := sha256Final_length _

theorem hmacSha256_eq {key : Bytes} (h : key.length ≤ hmacPadLength) (msg : Bytes) :
    hmacSha256 key msg = hmac sha256 hmacPadLength key msg := by
  have hpad (fill : UInt8) : hmacPad fill key = (hmacKey sha256 hmacPadLength key).map (fill ^^^ ·) :=
    (hmacKey_map_xor h fill).symm
  simp only [hmacSha256, hmac, sha256, sha256Update_update, hpad]

/-- What `backend_raw_digest_init` and the calls behind it yield on the object
of the format, however often it was used with keys that fit. -/
theorem hmacSha256Digest_yields {key : Bytes} {earlier : List HmacCall} (hkey : key.length ≤ hmacPadLength)
    (hearlier : ∀ k, .setKey k ∈ earlier → k.length ≤ hmacPadLength) (header data : Bytes) :
    HmacYields sha256Algo hmacPadLength earlier key [header, data] ((hmacSha256Digest key).mac (header ++ data)) := by
  have hno : ¬ LongAfterKey hmacPadLength earlier := by
    rintro ⟨a, b, c, k, l, rfl, -, hl⟩
    exact absurd (hearlier l (by simp)) (by omega)
  have h := hmacYields_of_fits sha256Algo_computes hkey hno [header, data]
  rwa [← hmacSha256_eq hkey, List.flatten_cons, List.flatten_singleton] at h

/-! ## Exactly when -/

/-- **The object computes HMAC exactly when the key needs no hashing and no
such key was set over another one before.** -/
theorem hmac_yields_iff {σ : Type} {algo : HashAlgo σ} {padLength : Nat} {hash : Bytes → Bytes}
    (hH : algo.Computes hash)
    (earlier : List HmacCall) (key : Bytes) (pieces : List Bytes) :
    HmacYields algo padLength earlier key pieces (hmac hash padLength key pieces.flatten) ↔
      key.length ≤ padLength ∧ ¬ LongAfterKey padLength earlier :=
  ⟨HmacYields.fits, fun h => hmacYields_of_fits hH h.1 h.2 pieces⟩

/-- A key over another one, and the message in two pieces. -/
theorem hmac_yields_rekeyed : HmacYields sha256Algo hmacPadLength [.setKey [1, 2, 3], .init, .update [9], .final] [4, 5]
    [[97], [98, 99]] (hmac sha256 hmacPadLength [4, 5] [97, 98, 99]) :=
  (hmac_yields_iff sha256Algo_computes _ _ _).2 ⟨by decide, by
    rintro ⟨a, b, c, k, l, h, -, hl⟩
    have hmem : HmacCall.setKey l ∈ [.setKey [1, 2, 3], .init, .update [9], .final] := h ▸ by simp
    simp only [List.mem_cons, HmacCall.setKey.injEq, reduceCtorEq, List.not_mem_nil, or_false] at hmem
    subst hmem
    exact absurd hl (by decide)⟩

/-- A key of 65 bytes on a new object is refused. -/
theorem hmac_long_key_refused : sha256Algo.Computes sha256 ∧ ¬ HmacYields sha256Algo hmacPadLength []
    (List.replicate 65 0)
    [] (hmac sha256 hmacPadLength (List.replicate 65 0) []) :=
  ⟨sha256Algo_computes, fun h => absurd h.fits.1 (by decide)⟩

end DtUtils
