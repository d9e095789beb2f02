/-
`crypto/sha2.c` for SHA-256 and `crypto/hmac.c` over it: the digest of a raw
state with `algo = "hmac(sha256)"`, for keys of at most a block.
-/
import DtUtils.FormatRaw

namespace DtUtils
open Lib

def ror32 (x n : UInt32) : UInt32 := (x >>> n) ||| (x <<< (32 - n))

/-- The eight words of the state; also the registers `a` to `h`. -/
structure Sha256Words where
  a : UInt32
  b : UInt32
  c : UInt32
  d : UInt32
  e : UInt32
  f : UInt32
  g : UInt32
  h : UInt32
deriving DecidableEq

def sha256Ch (x y z : UInt32) : UInt32 := z ^^^ (x &&& (y ^^^ z))
def sha256Maj (x y z : UInt32) : UInt32 := (x &&& y) ||| (z &&& (x ||| y))
def sha256E0 (x : UInt32) : UInt32 := ror32 x 2 ^^^ ror32 x 13 ^^^ ror32 x 22
def sha256E1 (x : UInt32) : UInt32 := ror32 x 6 ^^^ ror32 x 11 ^^^ ror32 x 25
def sha256S0 (x : UInt32) : UInt32 := ror32 x 7 ^^^ ror32 x 18 ^^^ (x >>> 3)
def sha256S1 (x : UInt32) : UInt32 := ror32 x 17 ^^^ ror32 x 19 ^^^ (x >>> 10)

/-- The constants of the 64 rounds of `sha256_transform`. -/
def sha256Constants : List UInt32 :=
  [0x428a2f98, 0x71374491, 0xb5c0fbcf, 0xe9b5dba5, 0x3956c25b, 0x59f111f1, 0x923f82a4, 0xab1c5ed5,
   0xd807aa98, 0x12835b01, 0x243185be, 0x550c7dc3, 0x72be5d74, 0x80deb1fe, 0x9bdc06a7, 0xc19bf174,
   0xe49b69c1, 0xefbe4786, 0x0fc19dc6, 0x240ca1cc, 0x2de92c6f, 0x4a7484aa, 0x5cb0a9dc, 0x76f988da,
   0x983e5152, 0xa831c66d, 0xb00327c8, 0xbf597fc7, 0xc6e00bf3, 0xd5a79147, 0x06ca6351, 0x14292967,
   0x27b70a85, 0x2e1b2138, 0x4d2c6dfc, 0x53380d13, 0x650a7354, 0x766a0abb, 0x81c2c92e, 0x92722c85,
   0xa2bfe8a1, 0xa81a664b, 0xc24b8b70, 0xc76c51a3, 0xd192e819, 0xd6990624, 0xf40e3585, 0x106aa070,
   0x19a4c116, 0x1e376c08, 0x2748774c, 0x34b0bcb5, 0x391c0cb3, 0x4ed8aa4a, 0x5b9cca4f, 0x682e6ff3,
   0x748f82ee, 0x78a5636f, 0x84c87814, 0x8cc70208, 0x90befffa, 0xa4506ceb, 0xbef9a3f7, 0xc67178f2]

/-- One round. The source renames the registers from one round to the next
where this moves their values. -/
def sha256Round (r : Sha256Words) (k w : UInt32) : Sha256Words :=
  let t1 := r.h + sha256E1 r.e + sha256Ch r.e r.f r.g + k + w
  let t2 := sha256E0 r.a + sha256Maj r.a r.b r.c
  ⟨t1 + t2, r.a, r.b, r.c, r.d + t1, r.e, r.f, r.g⟩

/-- The rounds with the constants `ks`; `w` holds the 16 words of the message
schedule from the present one on (`BLEND_OP`). -/
def sha256Rounds : List UInt32 → List UInt32 → Sha256Words → Sha256Words
  | k :: ks, w :: ws, r =>
    let blended := sha256S1 (ws.getD 13 0) + ws.getD 8 0 + sha256S0 (ws.getD 0 0) + w
    sha256Rounds ks (ws ++ [blended]) (sha256Round r k w)
  | _, _, r => r

/-- `LOAD_OP` for the first `n` words. -/
def sha256Load : Nat → Bytes → List UInt32
  | 0, _ => []
  | n + 1, input => .ofNat (beNat (input.take 4)) :: sha256Load n (input.drop 4)

/-- `sha256_transform` -/
def sha256Transform (state : Sha256Words) (input : Bytes) : Sha256Words :=
  let r := sha256Rounds sha256Constants (sha256Load 16 input) state
  ⟨state.a + r.a, state.b + r.b, state.c + r.c, state.d + r.d, state.e + r.e, state.f + r.f, state.g + r.g,
    state.h + r.h⟩

/-- `struct sha256_state`; `buf` is what is left behind the last whole block. -/
structure Sha256State where
  state : Sha256Words
  count : Nat
  buf : Bytes

/-- `sha256_init` -/
def sha256Init : Sha256State where
  state := ⟨0x6a09e667, 0xbb67ae85, 0x3c6ef372, 0xa54ff53a, 0x510e527f, 0x9b05688c, 0x1f83d9ab, 0x5be0cd19⟩
  count := 0
  buf := []

/-- The loop of `sha256_update` over `n` whole blocks, and the bytes left. -/
def sha256Blocks : Nat → Sha256Words → Bytes → Sha256Words × Bytes
  | 0, state, src => (state, src)
  | n + 1, state, src => sha256Blocks n (sha256Transform state (src.take 64)) (src.drop 64)

/-- `sha256_update` -/
def sha256Update (s : Sha256State) (data : Bytes) : Sha256State :=
  let src := s.buf ++ data
  let (state, buf) := sha256Blocks (src.length / 64) s.state src
  ⟨state, s.count + data.length, buf⟩

/-- `sha256_final` -/
def sha256Final (s : Sha256State) : Bytes :=
  let bits := s.count * 8 % 2 ^ 64
  let index := s.count % 64
  let padLen := if index < 56 then 56 - index else 64 + 56 - index
  let s := sha256Update s (0x80 :: List.replicate (padLen - 1) 0)
  let s := (sha256Update s (beBytes 8 bits)).state
  ([s.a, s.b, s.c, s.d, s.e, s.f, s.g, s.h].map fun x => beBytes 4 x.toNat).flatten

theorem sha256Final_length (s : Sha256State) : (sha256Final s).length = 32 := by simp [sha256Final]

/-- "abc" -/
example : sha256Final (sha256Update sha256Init [97, 98, 99]) = beBytes 32
    0xba7816bf8f01cfea414140de5dae2223b00361a396177a9cb410ff61f20015ad := by decide +kernel

/-! ## HMAC -/

/-- `pad_length` of `hmac(sha256)` -/
def hmacPadLength : Nat := 64

/-- `ipad` and `opad` as `digest_hmac_init` fills them. -/
def hmacPad (fill : UInt8) (key : Bytes) : Bytes :=
  key.map (fill ^^^ ·) ++ List.replicate (hmacPadLength - key.length) fill

/-- `digest_hmac_init`, `_update` and `_final`. -/
def hmacSha256 (key msg : Bytes) : Bytes :=
  let tmp := sha256Final (sha256Update (sha256Update sha256Init (hmacPad 0x36 key)) msg)
  sha256Final (sha256Update (sha256Update sha256Init (hmacPad 0x5c key)) tmp)

/-- The digest with the secret `key` in the keystore. -/
def hmacSha256Digest (key : Bytes) : Digest where
  length := 32
  ready := 0
  mac := hmacSha256 key
  mac_length _ := sha256Final_length _
  length_le := by decide

/-- The key "Jefe" and the message "what do ya want for nothing?" -/
example : hmacSha256 [74, 101, 102, 101] [119, 104, 97, 116, 32, 100, 111, 32, 121, 97, 32, 119, 97, 110, 116, 32, 102,
      111, 114, 32, 110, 111, 116, 104, 105, 110, 103, 63] = beBytes 32
    0x5bdcc146bf60754e6a042426089575c75a003f089d2739839dec58b964ec3843 := by decide +kernel

end DtUtils
