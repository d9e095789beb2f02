/-
The buffers of `crypto/sha1.c` and `crypto/sha2.c`: the update functions with
their 64 bytes of memory and 32-bit counters. `none` results are accesses
outside an object, or more rounds than `fuel`.

An update that comes to an end has absorbed its data, and it comes to an end
unless the counter of the loop overflows, which the two functions test at
different values (`shaUpdate_spec`).
-/
import DtUtils.Lib.BlockHash
import DtUtils.Lib.Splice

namespace DtUtils
open Lib

/-- `struct sha1_state` and `struct sha256_state` -/
structure ShaState (σ : Type) where
  count : UInt64
  state : σ
  buf : Bytes
  buf_length : buf.length = 64

theorem splice_buf {off : Nat} {d buf : Bytes} (hbuf : buf.length = 64) (h : off + d.length ≤ 64) :
    (splice off d buf).length = 64 := by
  rw [splice_length (hbuf ▸ h), hbuf]

section
variable {σ : Type}

/-- `memcpy` to the buffer -/
def ShaState.store (s : ShaState σ) (off : Nat) (d : Bytes) : Option (ShaState σ) :=
  if h : off + d.length ≤ 64 then
    some { s with buf := splice off d s.buf, buf_length := splice_buf s.buf_length h }
  else none

variable (transform : σ → Bytes → σ) (more : UInt32 → Nat → Bool)

/-- The loop of the update functions, which goes on while `more done len`. -/
def shaBlocks (data : Bytes) : Nat → σ → Bytes → UInt32 → Option (σ × UInt32)
  | 0, _, _, _ => none
  | fuel + 1, state, src, done =>
    if src.length < 64 then none
    else
      let state := transform state (src.take 64)
      let done := done + 64
      if more done data.length then shaBlocks data fuel state (data.drop done.toNat) done else some (state, done)

/-- The first block of an update: with bytes in the buffer it is filled up
there. Also what the loop begins with as `src` and `done`. -/
def ShaState.firstBlock (s : ShaState σ) (fill : UInt32) (data : Bytes) : Option (ShaState σ × Bytes × UInt32) :=
  if fill ≠ 0 then do
    let done := 0 - fill
    let s ← s.store fill.toNat (data.take (done + 64).toNat)
    return (s, s.buf, done)
  else some (s, data, 0)

/-- `sha1_update` and `sha256_update` -/
def shaUpdate (fuel : Nat) (s : ShaState σ) (data : Bytes) : Option (ShaState σ) := do
  let fill := (s.count % 64).toUInt32
  let s := { s with count := s.count + UInt64.ofNat data.length }
  if (fill.toNat + data.length) % 2 ^ 64 < 64 then s.store fill.toNat data
  else
    let (s, src, done) ← s.firstBlock fill data
    let (state, done) ← shaBlocks transform more data fuel s.state src done
    if data.length < done.toNat then none
    else ShaState.store { s with state := state } 0 (data.drop done.toNat)

/-! ## What a state holds -/

/-- The state is that of a message of `n` bytes with these blocks and rest. -/
structure ShaState.Holds (s : ShaState σ) (n : Nat) (a : σ × Bytes) : Prop where
  count : s.count = UInt64.ofNat n
  state : s.state = a.1
  rest : a.2.length = n % 64
  buf : s.buf.take (n % 64) = a.2

/-- The test of a loop, right until `done` comes to `2 ^ 32 - m`. -/
structure LoopTest (m : Nat) : Prop where
  le : 63 ≤ m ∧ m ≤ 64
  exact : ∀ done len, done.toNat + m < 2 ^ 32 → (more done len = true ↔ done.toNat + 64 ≤ len)
  wraps : ∀ done len, 2 ^ 32 ≤ done.toNat + m → done.toNat ≤ len → more done len = true
  long : ∀ done len, 2 ^ 32 ≤ len → more done len = true

end

/-- An update of `len` bytes behind `n` others needs no block, or `done` ends
below `2 ^ 32 - m`. -/
def UpdateFits (m n len : Nat) : Prop :=
  n % 64 + len < 64 ∨ len - (n + len) % 64 + m < 2 ^ 32

section
variable {σ : Type} {transform : σ → Bytes → σ} {more : UInt32 → Nat → Bool} {m : Nat}

theorem ShaState.store_eq_some {s s' : ShaState σ} {off : Nat} {d : Bytes} (h : s.store off d = some s') :
    off + d.length ≤ 64 ∧ s'.count = s.count ∧ s'.state = s.state ∧ s'.buf = splice off d s.buf := by
  rw [ShaState.store] at h
  split at h
  · next hle =>
    cases h
    exact ⟨hle, rfl, rfl, rfl⟩
  · cases h

theorem ShaState.store_isSome {s : ShaState σ} {o : Nat} {d : Bytes} (h : o + d.length ≤ 64) :
    ∃ s', s.store o d = some s' := ⟨_, by rw [ShaState.store, dif_pos h]⟩

/-- With `2 ^ 32` bytes or more the loop does not end. -/
theorem shaBlocks_long (ht : LoopTest more m) {data : Bytes} (hlong : 2 ^ 32 ≤ data.length) :
    ∀ (fuel : Nat) (state : σ) (src : Bytes) (done : UInt32),
      shaBlocks transform more data fuel state src done = none
  | 0, _, _, _ => rfl
  | fuel + 1, state, src, done => by
    rw [shaBlocks]
    split
    · rfl
    · simp only [ht.long _ _ hlong, if_true]
      exact shaBlocks_long ht hlong fuel _ _ _

/-- The loop over the blocks of `all`, the bytes in the buffer and the data
behind them, from the block `j` on. -/
theorem shaBlocks_spec (ht : LoopTest more m) {all data : Bytes} {fill : Nat} (hfill : fill < 64)
    (hall : all.length = fill + data.length) (hdata : ∀ k, data.drop k = all.drop (fill + k))
    (hshort : data.length < 2 ^ 32) :
    ∀ {fuel j : Nat} {state : σ} {src : Bytes} {done : UInt32}, 64 * (j + 1) ≤ all.length → 64 ≤ src.length →
      src.take 64 = (all.drop (64 * j)).take 64 → (done + 64).toNat = 64 * (j + 1) - fill →
      (∀ r, shaBlocks transform more data fuel state src done = some r →
        r.1 = (runBlocks transform 64 (all.length / 64 - j) state (all.drop (64 * j))).1 ∧
          r.2.toNat = 64 * (all.length / 64) - fill ∧ r.2.toNat + m < 2 ^ 32) ∧
      (64 * (all.length / 64) - fill + m < 2 ^ 32 → all.length / 64 - j ≤ fuel →
        ∃ r, shaBlocks transform more data fuel state src done = some r)
  | 0, j, _, _, _, hroom, _, _, _ => ⟨nofun, fun _ hfuel => absurd hfuel (by omega)⟩
  | fuel + 1, j, state, src, done, hroom, hsrc, htake, hdone => by
    rw [shaBlocks, if_neg (by omega), htake]
    have hsucc : all.length / 64 - j = all.length / 64 - (j + 1) + 1 := by omega
    by_cases hover : (done + 64).toNat + m < 2 ^ 32
    · by_cases hmore : (done + 64).toNat + 64 ≤ data.length
      · simp only [(ht.exact _ _ hover).2 hmore, if_true]
        have hnext : data.drop (done + 64).toNat = all.drop (64 * (j + 1)) := by
          rw [hdata, hdone]
          congr 1
          omega
        have hdone' : (done + 64 + 64).toNat = 64 * (j + 1 + 1) - fill := by
          rw [UInt32.toNat_add, hdone]
          simp only [UInt32.reduceToNat]
          omega
        have ih := @shaBlocks_spec ht all data fill hfill hall hdata hshort fuel (j + 1)
          (transform state ((all.drop (64 * j)).take 64)) (data.drop (done + 64).toNat) (done + 64) (by omega)
          (by rw [List.length_drop]; omega) (by rw [hnext]) hdone'
        refine ⟨fun r hr => ?_, fun hfits hfuel => ih.2 hfits (by omega)⟩
        obtain ⟨hstate, hrest⟩ := ih.1 r hr
        refine ⟨?_, hrest⟩
        rw [hstate, hsucc, runBlocks, List.drop_drop]
        rfl
      · have hlast : all.length / 64 = j + 1 := by omega
        simp only [mt (ht.exact _ _ hover).1 hmore]
        refine ⟨fun r hr => ?_, fun _ _ => ⟨_, rfl⟩⟩
        cases hr
        refine ⟨?_, by rw [hlast, hdone], hover⟩
        rw [hlast, Nat.add_sub_cancel_left, runBlocks, runBlocks]
    · -- The test overflows, and the loop goes on behind the last block.
      have hle := ht.le
      have hlast : all.length / 64 = j + 1 := by omega
      have hgo : more (done + 64) data.length = true := ht.wraps _ _ (by omega) (by omega)
      simp only [hgo, if_true]
      refine ⟨fun r hr => ?_, fun hfits => absurd hfits (by rw [hlast]; omega)⟩
      cases fuel with
      | zero =>
        rw [shaBlocks] at hr
        cases hr
      | succ fuel =>
        rw [shaBlocks, if_pos (by rw [List.length_drop]; omega)] at hr
        cases hr

theorem ShaState.Holds.fill {s : ShaState σ} {n : Nat} {a : σ × Bytes} (h : s.Holds n a) :
    (s.count % 64).toUInt32.toNat = n % 64 := by
  rw [h.count, UInt64.toNat_toUInt32, UInt64.toNat_mod, UInt64.toNat_ofNat']
  simp only [UInt64.reduceToNat]
  omega

/-- The loop begins with the bytes in the buffer and those of the data behind
them. -/
theorem firstBlock_spec {s : ShaState σ} {n : Nat} {fill : UInt32} {data held : Bytes} (hfill : fill.toNat = n % 64)
    (hheld : held.length = n % 64) (hbuf : s.buf.take (n % 64) = held) (hroom : 64 ≤ (held ++ data).length) :
    ∃ s' src done, s.firstBlock fill data = some (s', src, done) ∧ s'.count = s.count ∧ s'.state = s.state ∧
      64 ≤ src.length ∧ src.take 64 = (held ++ data).take 64 ∧ (done + 64).toNat = 64 - n % 64 := by
  rw [List.length_append] at hroom
  by_cases h0 : fill = 0
  · subst h0
    have hnil : held = [] := List.eq_nil_of_length_eq_zero (hheld.trans hfill.symm)
    have hn : n % 64 = 0 := hfill.symm
    rw [hnil, List.length_nil] at hroom
    refine ⟨s, data, 0, by rw [ShaState.firstBlock, if_neg (by simp)], rfl, rfl, by omega, by rw [hnil]; rfl, ?_⟩
    rw [hn]
    rfl
  · have hpos : 0 < n % 64 := by
      rw [← hfill]
      exact Nat.pos_of_ne_zero fun h => h0 (UInt32.toNat.inj h)
    have hdone : (0 - fill + 64).toNat = 64 - n % 64 := by
      rw [UInt32.toNat_add, UInt32.toNat_sub, hfill]
      simp only [UInt32.reduceToNat]
      omega
    have htake : (data.take (64 - n % 64)).length = 64 - n % 64 := by
      rw [List.length_take]
      omega
    obtain ⟨s', hs'⟩ := s.store_isSome (o := fill.toNat) (d := data.take (64 - n % 64))
      (by rw [hfill, htake]; omega)
    obtain ⟨-, hcount, hstate, hsplice⟩ := ShaState.store_eq_some hs'
    refine ⟨s', s'.buf, 0 - fill, ?_, hcount, hstate, s'.buf_length.ge, ?_, hdone⟩
    · rw [ShaState.firstBlock, if_pos h0]
      simp only [hdone, hs', Option.bind_eq_bind, Option.bind_some, Option.pure_def]
    · have hcat : held ++ data.take (64 - n % 64) = (held ++ data).take 64 := by
        have hle : held.take 64 = held := List.take_of_length_le (by omega)
        rw [List.take_append, hle, hheld]
      rw [hsplice, hfill, splice, hbuf, hcat]
      refine List.take_left' ?_
      rw [List.length_take, List.length_append]
      omega

theorem store_rest {s : ShaState σ} {rest : Bytes} (hrest : rest.length < 64) :
    ∃ s', s.store 0 rest = some s' ∧ s'.count = s.count ∧ s'.state = s.state ∧ s'.buf.take rest.length = rest := by
  obtain ⟨s', hs'⟩ := s.store_isSome (o := 0) (d := rest) (by omega)
  obtain ⟨-, hcount, hstate, hsplice⟩ := ShaState.store_eq_some hs'
  refine ⟨s', hs', hcount, hstate, ?_⟩
  rw [hsplice, splice, List.take_zero, List.nil_append, List.take_left' rfl]

theorem ShaState.Holds.store {s s' : ShaState σ} {n : Nat} {a : σ × Bytes} {data : Bytes} (h : s.Holds n a)
    (hfew : n % 64 + data.length < 64)
    (hs : ShaState.store { s with count := s.count + UInt64.ofNat data.length } (n % 64) data = some s') :
    s'.Holds (n + data.length) (absorb transform 64 a data) := by
  obtain ⟨-, hcount, hstate, hsplice⟩ := ShaState.store_eq_some hs
  have hmod : (n + data.length) % 64 = n % 64 + data.length := by omega
  have hall : (a.2 ++ data).length = n % 64 + data.length := by rw [List.length_append, h.rest]
  have habsorb : absorb transform 64 a data = (a.1, a.2 ++ data) := by
    rw [absorb, hall, Nat.div_eq_of_lt hfew, runBlocks]
  rw [habsorb]
  refine ⟨?_, hstate.trans h.state, hall.trans hmod.symm, ?_⟩
  · rw [hcount, h.count, UInt64.ofNat_add]
  · rw [hsplice, hmod, ← hall, splice, h.buf]
    exact List.take_left' rfl

/-- An update with at least one block, of data whose size fits 32 bits. -/
theorem shaUpdate_blocks (ht : LoopTest more m) {s : ShaState σ} {n : Nat} {a : σ × Bytes} (h : s.Holds n a)
    {data : Bytes} (hmany : ¬ (n % 64 + data.length) % 2 ^ 64 < 64) (hshort : data.length < 2 ^ 32) (fuel : Nat) :
    (∀ s', shaUpdate transform more fuel s data = some s' →
      s'.Holds (n + data.length) (absorb transform 64 a data) ∧ UpdateFits m n data.length) ∧
    (UpdateFits m n data.length → data.length / 64 + 1 ≤ fuel →
      ∃ s', shaUpdate transform more fuel s data = some s') := by
  have hall : (a.2 ++ data).length = n % 64 + data.length := by rw [List.length_append, h.rest]
  have hdata (k : Nat) : data.drop k = (a.2 ++ data).drop (n % 64 + k) := by
    rw [← h.rest, ← List.drop_drop, List.drop_left]
  have hroom : 64 ≤ (a.2 ++ data).length := by
    rw [hall]
    omega
  obtain ⟨s₁, src, done, hfirst, hcount, hstate, hsrc, htake, hdone⟩ := firstBlock_spec
    (s := { s with count := s.count + UInt64.ofNat data.length }) h.fill h.rest h.buf hroom
  obtain ⟨hdoes, hends⟩ := @shaBlocks_spec σ transform more m ht (a.2 ++ data) data (n % 64)
    (Nat.mod_lt _ (by decide)) hall hdata hshort fuel 0 s₁.state src done (by rw [hall]; omega) hsrc htake hdone
  rw [hall] at hdoes hends
  have hupdate : shaUpdate transform more fuel s data = (do
      let (state, done) ← shaBlocks transform more data fuel s₁.state src done
      if data.length < done.toNat then none
      else ShaState.store { s₁ with state := state } 0 (data.drop done.toNat)) := by
    simp only [shaUpdate, h.fill, if_neg hmany, hfirst, Option.bind_eq_bind, Option.bind_some]
  -- What is left behind the last block.
  have hdrop : data.drop (64 * ((n % 64 + data.length) / 64) - n % 64) =
      (a.2 ++ data).drop (64 * ((n % 64 + data.length) / 64)) := by
    rw [hdata]
    congr 1
    omega
  have hrest : (data.drop (64 * ((n % 64 + data.length) / 64) - n % 64)).length = (n + data.length) % 64 := by
    rw [List.length_drop]
    omega
  have hlt := Nat.mod_lt (n + data.length) (show 64 > 0 by decide)
  rw [← hrest] at hlt
  rw [hupdate]
  constructor
  · intro s' hs
    simp only [Option.bind_eq_bind, Option.bind_eq_some_iff] at hs
    obtain ⟨r, hr, hs⟩ := hs
    obtain ⟨hst, hd, hover⟩ := hdoes r hr
    rw [hd, if_neg (by omega)] at hs
    obtain ⟨s₂, hs₂, hcount₂, hstate₂, hbuf₂⟩ := store_rest (s := { s₁ with state := r.1 }) hlt
    cases hs.symm.trans hs₂
    refine ⟨⟨?_, ?_, ?_, ?_⟩, .inr (by omega)⟩
    · rw [hcount₂, hcount, h.count, UInt64.ofNat_add]
    · rw [hstate₂, absorb, hall, ← h.state, ← hstate]
      exact hst
    · rw [absorb, hall, runBlocks_rest, ← hdrop, hrest]
    · rw [absorb, hall, runBlocks_rest, ← hdrop, ← hrest]
      exact hbuf₂
  · intro hfits hfuel
    obtain ⟨r, hr⟩ := hends (by rcases hfits with hfits | hfits <;> omega) (by omega)
    obtain ⟨-, hd, -⟩ := hdoes r hr
    obtain ⟨s₂, hs₂, -⟩ := store_rest (s := { s₁ with state := r.1 }) hlt
    refine ⟨s₂, ?_⟩
    simp only [hr, Option.bind_eq_bind, Option.bind_some, hd]
    rw [if_neg (by omega), hs₂]

/-- What an update does, and when it comes to an end. -/
theorem shaUpdate_spec (ht : LoopTest more m) {s : ShaState σ} {n : Nat} {a : σ × Bytes} (h : s.Holds n a)
    (data : Bytes) (fuel : Nat) :
    (∀ s', shaUpdate transform more fuel s data = some s' →
      s'.Holds (n + data.length) (absorb transform 64 a data) ∧ UpdateFits m n data.length) ∧
    (UpdateFits m n data.length → data.length / 64 + 1 ≤ fuel →
      ∃ s', shaUpdate transform more fuel s data = some s') := by
  by_cases hfew : (n % 64 + data.length) % 2 ^ 64 < 64
  · have hupdate : shaUpdate transform more fuel s data =
        ShaState.store { s with count := s.count + UInt64.ofNat data.length } (n % 64) data := by
      simp only [shaUpdate, h.fill, if_pos hfew]
    rw [hupdate]
    constructor
    · intro s' hs
      obtain ⟨hle, -⟩ := ShaState.store_eq_some hs
      exact ⟨h.store (by omega) hs, .inl (by omega)⟩
    · have hm := ht.le
      intro hfits hfuel
      exact ShaState.store_isSome (by rcases hfits with hfits | hfits <;> omega)
  by_cases hshort : data.length < 2 ^ 32
  · exact shaUpdate_blocks ht h hfew hshort fuel
  · constructor
    · intro s' hs
      simp only [shaUpdate, h.fill, if_neg hfew, Option.bind_eq_bind, Option.bind_eq_some_iff] at hs
      obtain ⟨⟨s₁, src, done⟩, -, r, hr, -⟩ := hs
      rw [shaBlocks_long ht (by omega)] at hr
      cases hr
    · have hm := ht.le
      rintro (hfits | hfits) <;> omega

end

end DtUtils
