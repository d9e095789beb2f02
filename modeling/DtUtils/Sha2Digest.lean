/-
SHA-224 and SHA-256 of `crypto/sha2.c` in memory: whatever the pieces of a
message and whatever the context was used for, a digest that is computed is
that of the padded message, and for SHA-256 the `sha256` that the HMAC of a raw
state is built on.
-/
import DtUtils.Hmac
import DtUtils.ShaDigest

namespace DtUtils
open Lib

/-- `done + 63 < len` -/
def sha256More (done : UInt32) (len : Nat) : Bool := (done + 63).toNat < len

theorem sha256More_test : LoopTest sha256More 63 where
  le := ⟨le_rfl, by decide⟩
  exact done len h := by
    rw [sha256More, UInt32.toNat_add, decide_eq_true_iff]
    simp only [UInt32.reduceToNat]
    omega
  wraps done len h hle := by
    have hlt := done.toNat_lt
    rw [sha256More, UInt32.toNat_add, decide_eq_true_iff]
    simp only [UInt32.reduceToNat]
    omega
  long done len h := by
    have hlt := (done + 63).toNat_lt
    rw [sha256More, decide_eq_true_iff]
    omega

/-- The two algorithms of `sha2.c` -/
inductive Sha2
  | sha224
  | sha256
deriving DecidableEq

/-- The words that `sha224_init` and `sha256_init` begin with. -/
def Sha2.start : Sha2 → Sha256Words
  | .sha224 => ⟨0xc1059ed8, 0x367cd507, 0x3070dd17, 0xf70e5939, 0xffc00b31, 0x68581511, 0x64f98fa7, 0xbefa4fa4⟩
  | .sha256 => sha256Init.state

/-- `SHA224_DIGEST_SIZE` and `SHA256_DIGEST_SIZE` -/
def Sha2.length : Sha2 → Nat
  | .sha224 => 28
  | .sha256 => 32

/-- The words of a state as `sha256_final` stores them. -/
def Sha256Words.bytes (s : Sha256Words) : Bytes :=
  ([s.a, s.b, s.c, s.d, s.e, s.f, s.g, s.h].map fun x => beBytes 4 x.toNat).flatten

theorem Sha256Words.bytes_length (s : Sha256Words) : s.bytes.length = 32 := by simp [bytes]

/-- `sha224_init` and `sha256_init` on a context -/
def Sha2.init (algo : Sha2) (ctx : ShaState Sha256Words) : ShaState Sha256Words :=
  { ctx with count := 0, state := algo.start }

/-- `init`, the updates and `sha224_final` or `sha256_final` -/
def Sha2.digest (algo : Sha2) (fuel : Nat) (ctx : ShaState Sha256Words) (pieces : List Bytes) : Option Bytes :=
  (shaDigest sha256Transform sha256More fuel (algo.init ctx) pieces).map fun s => s.bytes.take algo.length

/-- The digest of a message -/
def Sha2.hash (algo : Sha2) (m : Bytes) : Bytes :=
  (blockHash sha256Transform 64 shaPadding algo.start m).bytes.take algo.length

/-! ## SHA-256 -/

theorem sha256Blocks_eq : ∀ (n : Nat) (state : Sha256Words) (src : Bytes),
    sha256Blocks n state src = runBlocks sha256Transform 64 n state src
  | 0, _, _ => rfl
  | n + 1, state, src => by rw [sha256Blocks, runBlocks, sha256Blocks_eq n]

theorem sha256Update_absorb (s : Sha256State) (data : Bytes) :
    ((sha256Update s data).state, (sha256Update s data).buf) = absorb sha256Transform 64 (s.state, s.buf) data ∧
      (sha256Update s data).count = s.count + data.length :=
  ⟨sha256Blocks_eq _ _ _, rfl⟩

/-- The digest that HMAC is computed with is that of the padded message. -/
theorem hash_sha256 (m : Bytes) : Sha2.hash .sha256 m = sha256 m := by
  obtain ⟨s, hs⟩ : ∃ s, s = sha256Update sha256Init m := ⟨_, rfl⟩
  obtain ⟨habsorb, hcount⟩ := sha256Update_absorb sha256Init m
  rw [← hs] at habsorb hcount
  have hn : s.count = m.length := hcount.trans (Nat.zero_add _)
  have hpad : (0x80 :: List.replicate ((if s.count % 64 < 56 then 56 - s.count % 64 else 64 + 56 - s.count % 64) - 1) 0) ++
      beBytes 8 (s.count * 8 % 2 ^ 64) = shaPadding m.length := by
    rw [hn, shaPadding]
    congr 3
    split <;> omega
  have hstate : (sha256Update s (shaPadding m.length)).state = blockHash sha256Transform 64 shaPadding sha256Init.state m := by
    have hfed := (sha256Update_absorb s (shaPadding m.length)).1
    rw [habsorb, absorb_absorb (by decide)] at hfed
    have hall : absorb sha256Transform 64 (sha256Init.state, []) (m ++ shaPadding m.length) = _ :=
      absorb_padded (shaPadding_dvd m) sha256Init.state
    have hboth := congrArg Prod.fst (hfed.trans hall)
    exact hboth
  have hfinal : sha256 m = (sha256Update s (shaPadding m.length)).state.bytes := by
    rw [← hpad, ← sha256Update_update, sha256, ← hs]
    rfl
  rw [Sha2.hash, Sha2.start, hfinal, hstate, Sha2.length, ← Sha256Words.bytes_length, List.take_length]

theorem Sha2.init_holds (algo : Sha2) (ctx : ShaState Sha256Words) : (algo.init ctx).Holds 0 (algo.start, []) :=
  ⟨rfl, rfl, rfl, rfl⟩

/-- **SHA-224 and SHA-256 do not depend on the pieces of a message**: a digest
that is computed is that of the padded message, and one is computed exactly if
no update counts up to `2 ^ 32 - 63` or more. -/
theorem sha2_digest_iff (algo : Sha2) (ctx : ShaState Sha256Words) (pieces : List Bytes) :
    (∀ fuel md, algo.digest fuel ctx pieces = some md → md = algo.hash pieces.flatten) ∧
      ((∃ fuel, (algo.digest fuel ctx pieces).isSome = true) ↔ PiecesFit 63 0 pieces) := by
  obtain ⟨hdoes, hends⟩ := shaDigest_spec sha256More_test (algo.init_holds ctx) pieces
  constructor
  · intro fuel md hmd
    obtain ⟨st, hst, rfl⟩ := Option.map_eq_some_iff.1 hmd
    rw [hdoes fuel st hst, Sha2.hash]
  · rw [← hends]
    simp only [Sha2.digest, Option.isSome_map]

end DtUtils
