/-
SHA-1 of `crypto/sha1.c`: the 80 rounds over an array of 16 words that is
rolled over, and the digest in memory for any pieces of a message.
-/
import DtUtils.ShaDigest

namespace DtUtils
open Lib

def rol32 (x n : UInt32) : UInt32 := (x <<< n) ||| (x >>> (32 - n))

/-- The five words of the state; also the registers `A` to `E`. -/
structure Sha1Words where
  a : UInt32
  b : UInt32
  c : UInt32
  d : UInt32
  e : UInt32
deriving DecidableEq

/-- `W(x)` -/
def sha1W (array : List UInt32) (x : Nat) : UInt32 := array.getD (x % 16) 0

/-- `SHA_SRC` and `SHA_MIX` -/
def sha1Input (data : Bytes) (array : List UInt32) (t : Nat) : UInt32 :=
  if t < 16 then .ofNat (beNat (slice (4 * t) 4 data))
  else rol32 (sha1W array (t + 13) ^^^ sha1W array (t + 8) ^^^ sha1W array (t + 2) ^^^ sha1W array t) 1

/-- The function and the constant of `T_0_15` to `T_60_79`. -/
def sha1Mix (t : Nat) (b c d : UInt32) : UInt32 × UInt32 :=
  if t < 20 then (((c ^^^ d) &&& b) ^^^ d, 0x5a827999)
  else if t < 40 then (b ^^^ c ^^^ d, 0x6ed9eba1)
  else if t < 60 then ((b &&& c) + (d &&& (b ^^^ c)), 0x8f1bbcdc)
  else (b ^^^ c ^^^ d, 0xca62c1d6)

/-- `SHA_ROUND`. The source renames the registers from one round to the next
where this moves their values. -/
def sha1Round (data : Bytes) (s : Sha1Words × List UInt32) (t : Nat) : Sha1Words × List UInt32 :=
  let (r, array) := s
  let temp := sha1Input data array t
  let (fn, constant) := sha1Mix t r.b r.c r.d
  (⟨r.e + (temp + rol32 r.a 5 + fn + constant), r.a, ror32 r.b 2, r.c, r.d⟩, array.set (t % 16) temp)

/-- `sha_transform`; the array is written before it is read. -/
def shaTransform (digest : Sha1Words) (data : Bytes) : Sha1Words :=
  let (r, _) := (List.range 80).foldl (sha1Round data) (digest, List.replicate 16 0)
  ⟨digest.a + r.a, digest.b + r.b, digest.c + r.c, digest.d + r.d, digest.e + r.e⟩

/-- The words of a state as `sha1_final` stores them. -/
def Sha1Words.bytes (s : Sha1Words) : Bytes := ([s.a, s.b, s.c, s.d, s.e].map fun x => beBytes 4 x.toNat).flatten

/-- `SHA1_H0` to `SHA1_H4` -/
def sha1Start : Sha1Words := ⟨0x67452301, 0xefcdab89, 0x98badcfe, 0x10325476, 0xc3d2e1f0⟩

/-- `sha1_init` on a context -/
def sha1Init (ctx : ShaState Sha1Words) : ShaState Sha1Words := { ctx with count := 0, state := sha1Start }

/-- `done + SHA1_BLOCK_SIZE <= len` -/
def sha1More (done : UInt32) (len : Nat) : Bool := (done + 64).toNat ≤ len

theorem sha1More_test : LoopTest sha1More 64 where
  le := ⟨by decide, le_rfl⟩
  exact done len h := by
    rw [sha1More, UInt32.toNat_add, decide_eq_true_iff]
    simp only [UInt32.reduceToNat]
    omega
  wraps done len h hle := by
    have hlt := done.toNat_lt
    rw [sha1More, UInt32.toNat_add, decide_eq_true_iff]
    simp only [UInt32.reduceToNat]
    omega
  long done len h := by
    have hlt := (done + 64).toNat_lt
    rw [sha1More, decide_eq_true_iff]
    omega

/-- `sha1_init`, the updates and `sha1_final` -/
def sha1Digest (fuel : Nat) (ctx : ShaState Sha1Words) (pieces : List Bytes) : Option Bytes :=
  (shaDigest shaTransform sha1More fuel (sha1Init ctx) pieces).map Sha1Words.bytes

/-- The digest of a message -/
def sha1 (m : Bytes) : Bytes := (blockHash shaTransform 64 shaPadding sha1Start m).bytes

/-- **SHA-1 does not depend on the pieces of a message**: a digest that is
computed is that of the padded message, and one is computed exactly if no
update counts up to `2 ^ 32 - 64` or more. -/
theorem sha1_digest_iff (ctx : ShaState Sha1Words) (pieces : List Bytes) :
    (∀ fuel md, sha1Digest fuel ctx pieces = some md → md = sha1 pieces.flatten) ∧
      ((∃ fuel, (sha1Digest fuel ctx pieces).isSome = true) ↔ PiecesFit 64 0 pieces) := by
  have hstart : (sha1Init ctx).Holds 0 (sha1Start, []) := ⟨rfl, rfl, rfl, rfl⟩
  obtain ⟨hdoes, hends⟩ := shaDigest_spec sha1More_test hstart pieces
  constructor
  · intro fuel md hmd
    obtain ⟨st, hst, rfl⟩ := Option.map_eq_some_iff.1 hmd
    rw [hdoes fuel st hst, sha1]
  · rw [← hends]
    simp only [sha1Digest, Option.isSome_map]

/-- "abc" -/
example : sha1 [97, 98, 99] = beBytes 20 0xa9993e364706816aba3e25717850c26c9cd0d89d := by decide +kernel

end DtUtils
