/-
Hash functions over byte strings: an implementation that is fed piece by
piece (`HashAlgo`), when it computes a given function (`Computes`), and the
keyed hash HMAC as a function of the hash it is built on.
-/
import DtUtils.Lib.Words

namespace Lib

/-- A hash implementation with state `σ`. Every operation has a return value,
and `final` writes `length` bytes. -/
structure HashAlgo (σ : Type) where
  length : Nat
  /-- The state before the first use. -/
  zero : σ
  init : σ → σ × Int
  update : σ → Bytes → σ × Int
  final : σ → σ × Int × Bytes

/-- Feeding the pieces one after the other, whatever the return values. -/
def HashAlgo.feed {σ : Type} (algo : HashAlgo σ) (s : σ) (pieces : List Bytes) : σ :=
  pieces.foldl (fun s piece => (algo.update s piece).1) s

/-- The implementation hashes with `hash` what it is fed after it was
initialised, in whatever pieces, and never fails. -/
structure HashAlgo.Computes {σ : Type} (algo : HashAlgo σ) (hash : Bytes → Bytes) : Prop where
  init_ok : ∀ s, (algo.init s).2 = 0
  update_ok : ∀ s piece, (algo.update s piece).2 = 0
  final_ok : ∀ s, (algo.final s).2.1 = 0
  final_eq : ∀ s pieces, (algo.final (algo.feed (algo.init s).1 pieces)).2.2 = hash pieces.flatten
  hash_length : ∀ m, (hash m).length = algo.length

theorem HashAlgo.Computes.final {σ : Type} {algo : HashAlgo σ} {hash : Bytes → Bytes} (h : algo.Computes hash) (s : σ)
    (pieces : List Bytes) : (algo.final (algo.feed (algo.init s).1 pieces)).2 = (0, hash pieces.flatten) :=
  Prod.ext (h.final_ok _) (h.final_eq s pieces)

/-- A key of one block: zeros behind it, after it was hashed if it is longer
than a block. -/
def hmacKey (hash : Bytes → Bytes) (blockSize : Nat) (key : Bytes) : Bytes :=
  let key := if blockSize < key.length then hash key else key
  key ++ List.replicate (blockSize - key.length) 0

theorem hmacKey_map_xor {hash : Bytes → Bytes} {blockSize : Nat} {key : Bytes} (h : key.length ≤ blockSize)
    (fill : UInt8) :
    (hmacKey hash blockSize key).map (fill ^^^ ·) =
      key.map (fill ^^^ ·) ++ List.replicate (blockSize - key.length) fill := by
  rw [hmacKey, if_neg (by omega), List.map_append, List.map_replicate, UInt8.xor_zero]

/-- HMAC over the function `hash` with blocks of `blockSize` bytes. -/
def hmac (hash : Bytes → Bytes) (blockSize : Nat) (key msg : Bytes) : Bytes :=
  let key := hmacKey hash blockSize key
  hash (key.map (0x5c ^^^ ·) ++ hash (key.map (0x36 ^^^ ·) ++ msg))

end Lib
