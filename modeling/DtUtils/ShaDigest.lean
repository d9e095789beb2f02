/-
SHA-1, SHA-224 and SHA-256 as `crypto/sha1.c` and `crypto/sha2.c` compute them
in memory: `init`, any number of updates and `final`. Whatever the pieces, a
digest that is computed is the hash of the padded message, and it is computed
unless a piece is so long that the counter of its update overflows.
-/
import DtUtils.ShaUpdate
import DtUtils.Sha2

namespace DtUtils
open Lib

/-! ## Padding -/

/-- What stands behind a message of `n` bytes: a bit, zeros and the number of
its bits. -/
def shaPadding (n : Nat) : Bytes :=
  0x80 :: List.replicate (if n % 64 < 56 then 55 - n % 64 else 119 - n % 64) 0 ++ beBytes 8 (n * 8 % 2 ^ 64)

theorem shaPadding_dvd (m : Bytes) : 64 ∣ (m ++ shaPadding m.length).length := by
  rw [shaPadding, List.length_append, List.length_append, List.length_cons, List.length_replicate, beBytes_length]
  split <;> omega

section
variable {σ : Type} (transform : σ → Bytes → σ) (more : UInt32 → Nat → Bool) (fuel : Nat)

/-- `sha1_final` and `sha256_final` up to the words of the state -/
def shaFinal (s : ShaState σ) : Option (ShaState σ) := do
  let bits := beBytes 8 (s.count <<< 3).toNat
  let index := (s.count &&& 0x3f).toUInt32
  let padLen := if index < 56 then 56 - index else 64 + 56 - index
  let s ← shaUpdate transform more fuel s ((0x80 :: List.replicate 63 0).take padLen.toNat)
  shaUpdate transform more fuel s bits

/-- The updates and `final` behind an `init` that left `start`. -/
def shaDigest (start : ShaState σ) (pieces : List Bytes) : Option σ := do
  let s ← pieces.foldlM (shaUpdate transform more fuel) start
  let s ← shaFinal transform more fuel s
  return s.state

end

/-- Every piece fits behind those before it, of `n` bytes. -/
def PiecesFit (m : Nat) : Nat → List Bytes → Prop
  | _, [] => True
  | n, piece :: pieces => UpdateFits m n piece.length ∧ PiecesFit m (n + piece.length) pieces

section
variable {σ : Type} {transform : σ → Bytes → σ} {more : UInt32 → Nat → Bool} {m : Nat}

theorem UpdateFits.of_short {n len : Nat} (hm : m ≤ 64) (hlen : len < 2 ^ 31) : UpdateFits m n len := .inr (by omega)

/-- The index of `final` and the length of its padding. -/
theorem ShaState.Holds.padLen {s : ShaState σ} {n : Nat} {a : σ × Bytes} (h : s.Holds n a) :
    (if (s.count &&& 0x3f).toUInt32 < 56 then 56 - (s.count &&& 0x3f).toUInt32
      else 64 + 56 - (s.count &&& 0x3f).toUInt32).toNat = if n % 64 < 56 then 56 - n % 64 else 120 - n % 64 := by
  have hindex : (s.count &&& 0x3f).toUInt32.toNat = n % 64 := by
    rw [UInt64.toNat_toUInt32, UInt64.toNat_and, h.count, UInt64.toNat_ofNat']
    simp only [UInt64.reduceToNat]
    rw [Nat.and_two_pow_sub_one_eq_mod _ 6]
    omega
  have hlt : ((s.count &&& 0x3f).toUInt32 < 56) = (n % 64 < 56) := by
    rw [UInt32.lt_iff_toNat_lt, hindex]
    rfl
  simp only [hlt]
  split
  · rw [UInt32.toNat_sub, hindex]
    simp only [UInt32.reduceToNat]
    omega
  · rw [UInt32.toNat_sub, hindex]
    simp only [UInt32.reduceToNat, UInt32.reduceAdd]
    omega

theorem padding_take (n : Nat) : ((0x80 : UInt8) :: List.replicate 63 0).take (if n % 64 < 56 then 56 - n % 64
    else 120 - n % 64) ++ beBytes 8 (n * 8 % 2 ^ 64) = shaPadding n := by
  have hzeros : ∀ k, k ≤ 63 → ((0x80 : UInt8) :: List.replicate 63 0).take (k + 1) = 0x80 :: List.replicate k 0 := by
    intro k hk
    rw [List.take_succ_cons, List.take_replicate, Nat.min_eq_left hk]
  rw [shaPadding]
  split
  · rw [show 56 - n % 64 = 55 - n % 64 + 1 by omega, hzeros _ (by omega)]
  · rw [show 120 - n % 64 = 119 - n % 64 + 1 by omega, hzeros _ (by omega)]

/-- `final` behind a message. -/
theorem shaFinal_spec (ht : LoopTest more m) {s : ShaState σ} {start : σ} {msg : Bytes}
    (h : s.Holds msg.length (absorb transform 64 (start, []) msg)) (fuel : Nat) :
    (∀ s', shaFinal transform more fuel s = some s' → s'.state = blockHash transform 64 shaPadding start msg) ∧
      (2 ≤ fuel → ∃ s', shaFinal transform more fuel s = some s') := by
  obtain ⟨padding, hpadding⟩ : ∃ padding, padding = ((0x80 : UInt8) :: List.replicate 63 0).take
    (if msg.length % 64 < 56 then 56 - msg.length % 64 else 120 - msg.length % 64) := ⟨_, rfl⟩
  obtain ⟨bits, hbits⟩ : ∃ bits, bits = beBytes 8 (msg.length * 8 % 2 ^ 64) := ⟨_, rfl⟩
  have hcount : (s.count <<< 3).toNat = msg.length * 8 % 2 ^ 64 := by
    rw [UInt64.toNat_shiftLeft, h.count, UInt64.toNat_ofNat']
    simp only [UInt64.reduceToNat, Nat.reduceMod, Nat.shiftLeft_eq]
    omega
  have hfinal : shaFinal transform more fuel s =
      (shaUpdate transform more fuel s padding).bind fun s => shaUpdate transform more fuel s bits := by
    simp only [shaFinal, hcount, h.padLen, ← hpadding, ← hbits, Option.bind_eq_bind]
  have hlong : padding.length ≤ 64 := by
    rw [hpadding]
    exact List.length_take_le' _ _
  have hshort : bits.length = 8 := by rw [hbits, beBytes_length]
  obtain ⟨hdoes, hends⟩ := shaUpdate_spec ht h padding fuel
  rw [hfinal]
  constructor
  · intro s' hs
    obtain ⟨s₁, hs₁, hs⟩ := Option.bind_eq_some_iff.1 hs
    have h' := ((shaUpdate_spec ht (hdoes s₁ hs₁).1 bits fuel).1 s' hs).1.state
    rw [h', absorb_absorb (by decide), absorb_absorb (by decide), hpadding, hbits, padding_take,
      absorb_padded (shaPadding_dvd msg)]
  · intro hfuel
    obtain ⟨s₁, hs₁⟩ := hends (.of_short ht.le.2 (by omega)) (by omega)
    obtain ⟨s₂, hs₂⟩ := (shaUpdate_spec ht (hdoes s₁ hs₁).1 bits fuel).2 (.of_short ht.le.2 (by omega)) (by omega)
    exact ⟨s₂, by rw [hs₁, Option.bind_some, hs₂]⟩

theorem foldlM_shaUpdate (ht : LoopTest more m) {start : σ} (fuel : Nat) :
    ∀ {pieces : List Bytes} {s : ShaState σ} {fed : Bytes},
      s.Holds fed.length (absorb transform 64 (start, []) fed) →
      (∀ s', pieces.foldlM (shaUpdate transform more fuel) s = some s' → PiecesFit m fed.length pieces ∧
        s'.Holds (fed ++ pieces.flatten).length (absorb transform 64 (start, []) (fed ++ pieces.flatten))) ∧
      (PiecesFit m fed.length pieces → pieces.flatten.length + 1 ≤ fuel →
        ∃ s', pieces.foldlM (shaUpdate transform more fuel) s = some s')
  | [], s, fed, h => by
    rw [List.flatten_nil, List.append_nil]
    refine ⟨fun s' hs => ?_, fun _ _ => ⟨s, rfl⟩⟩
    cases hs
    exact ⟨trivial, h⟩
  | piece :: pieces, s, fed, h => by
    have hspec := @shaUpdate_spec σ transform more m ht s _ _ h piece fuel
    have hnext : ∀ s₁, shaUpdate transform more fuel s piece = some s₁ →
        s₁.Holds (fed ++ piece).length (absorb transform 64 (start, []) (fed ++ piece)) := by
      intro s₁ hs₁
      obtain ⟨h₁, -⟩ := hspec.1 s₁ hs₁
      rwa [absorb_absorb (by decide), ← List.length_append] at h₁
    rw [List.flatten_cons, ← List.append_assoc]
    constructor
    · intro s' hs
      simp only [List.foldlM_cons, Option.bind_eq_bind, Option.bind_eq_some_iff] at hs
      obtain ⟨s₁, hs₁, hs⟩ := hs
      obtain ⟨hfits, hholds⟩ := (foldlM_shaUpdate ht fuel (hnext s₁ hs₁)).1 s' hs
      rw [List.length_append] at hfits
      exact ⟨⟨(hspec.1 s₁ hs₁).2, hfits⟩, hholds⟩
    · rintro ⟨hfit, hfits⟩ hfuel
      rw [List.length_append] at hfuel
      obtain ⟨s₁, hs₁⟩ := hspec.2 hfit (by omega)
      rw [← List.length_append] at hfits
      obtain ⟨s', hs'⟩ := (foldlM_shaUpdate ht fuel (hnext s₁ hs₁)).2 hfits (by omega)
      refine ⟨s', ?_⟩
      rw [List.foldlM_cons, hs₁]
      exact hs'

/-- What a digest is, and when there is one. -/
theorem shaDigest_spec (ht : LoopTest more m) {s : ShaState σ} {start : σ} (h : s.Holds 0 (start, []))
    (pieces : List Bytes) :
    (∀ fuel st, shaDigest transform more fuel s pieces = some st →
      st = blockHash transform 64 shaPadding start pieces.flatten) ∧
    ((∃ fuel, (shaDigest transform more fuel s pieces).isSome = true) ↔ PiecesFit m 0 pieces) := by
  have hnil : s.Holds ([] : Bytes).length (absorb transform 64 (start, []) []) := by
    rw [absorb, List.append_nil, List.length_nil, Nat.zero_div, runBlocks]
    exact h
  have hall (fuel : Nat) := @foldlM_shaUpdate σ transform more m ht start fuel pieces s [] hnil
  simp only [List.nil_append, List.length_nil] at hall
  constructor
  · intro fuel st hst
    simp only [shaDigest, Option.bind_eq_bind, Option.bind_eq_some_iff, Option.pure_def, Option.some.injEq] at hst
    obtain ⟨s₁, hs₁, s₂, hs₂, rfl⟩ := hst
    exact (shaFinal_spec ht ((hall fuel).1 s₁ hs₁).2 fuel).1 s₂ hs₂
  · constructor
    · rintro ⟨fuel, hsome⟩
      obtain ⟨st, hst⟩ := Option.isSome_iff_exists.1 hsome
      simp only [shaDigest, Option.bind_eq_bind, Option.bind_eq_some_iff] at hst
      obtain ⟨s₁, hs₁, -⟩ := hst
      exact ((hall fuel).1 s₁ hs₁).1
    · intro hfits
      obtain ⟨s₁, hs₁⟩ := (hall (pieces.flatten.length + 2)).2 hfits (by omega)
      obtain ⟨s₂, hs₂⟩ := (shaFinal_spec ht ((hall _).1 s₁ hs₁).2 (pieces.flatten.length + 2)).2 (by omega)
      refine ⟨pieces.flatten.length + 2, ?_⟩
      simp only [shaDigest, hs₁, hs₂, Option.bind_eq_bind, Option.bind_some, Option.pure_def, Option.isSome_some]

/-- Pieces that are not as long as 32 bits can count. -/
theorem PiecesFit.of_short (hm : m ≤ 64) : ∀ {n : Nat} {pieces : List Bytes}, (∀ p ∈ pieces, p.length < 2 ^ 32 - 64) →
    PiecesFit m n pieces
  | _, [], _ => trivial
  | n, piece :: pieces, h => by
    rw [List.forall_mem_cons] at h
    exact ⟨.inr (by omega), .of_short hm h.2⟩

end

end DtUtils
