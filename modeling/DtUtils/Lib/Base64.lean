/-
The padded base64 encoding of bytes: three of them in four characters of six
bits each, and `=` in place of the characters that the end does without.
-/
import DtUtils.Lib.Words
import Mathlib.Tactic.IntervalCases

namespace Lib

/-- `A` to `Z`, `a` to `z`, `0` to `9`, `+` and `/`. -/
def base64Alphabet : Bytes :=
  ((List.range 26).map fun n => .ofNat (65 + n)) ++ ((List.range 26).map fun n => .ofNat (97 + n)) ++
    ((List.range 10).map fun n => .ofNat (48 + n)) ++ [43, 47]

/-- `=` -/
def base64Pad : UInt8 := 61

/-- The character for six bits. -/
def base64Char (six : UInt8) : UInt8 := base64Alphabet.getD six.toNat 0

/-- The four groups of six bits in three bytes. -/
def sextet₁ (a : UInt8) : UInt8 := a >>> 2
def sextet₂ (a b : UInt8) : UInt8 := (a &&& 3) <<< 4 ||| b >>> 4
def sextet₃ (b c : UInt8) : UInt8 := (b &&& 15) <<< 2 ||| c >>> 6
def sextet₄ (c : UInt8) : UInt8 := c &&& 63

def encodeBase64 : Bytes → Bytes
  | [] => []
  | [a] => [base64Char (sextet₁ a), base64Char (sextet₂ a 0), base64Pad, base64Pad]
  | [a, b] => [base64Char (sextet₁ a), base64Char (sextet₂ a b), base64Char (sextet₃ b 0), base64Pad]
  | a :: b :: c :: rest =>
    base64Char (sextet₁ a) :: base64Char (sextet₂ a b) :: base64Char (sextet₃ b c) :: base64Char (sextet₄ c) ::
      encodeBase64 rest

example : encodeBase64 [77, 97] = [84, 87, 69, 61] := by decide

/-! ## Bits -/

theorem byte_ext {x y : UInt8} (h : ∀ i < 8, x.toBitVec.getLsbD i = y.toBitVec.getLsbD i) : x = y :=
  UInt8.toBitVec_inj.1 (BitVec.eq_of_getLsbD_eq h)

theorem sextets_first (a b : UInt8) : sextet₁ a <<< 2 ||| sextet₂ a b >>> 4 = a := by
  refine byte_ext fun i hi => ?_
  simp only [sextet₁, sextet₂]
  interval_cases i <;> simp [BitVec.getLsbD_of_ge]

theorem sextets_second (a b c : UInt8) : sextet₂ a b <<< 4 ||| sextet₃ b c >>> 2 = b := by
  refine byte_ext fun i hi => ?_
  simp only [sextet₂, sextet₃]
  interval_cases i <;> simp [BitVec.getLsbD_of_ge]

theorem sextets_third (b c : UInt8) : sextet₃ b c <<< 6 ||| sextet₄ c = c := by
  refine byte_ext fun i hi => ?_
  simp only [sextet₃, sextet₄]
  interval_cases i <;> simp

theorem toNat_lt_of_and {x : UInt8} (h : x &&& 63 = x) : x.toNat < 64 := by
  rw [← h, UInt8.toNat_and]
  exact Nat.lt_of_le_of_lt Nat.and_le_right (by decide)

theorem sextet₁_lt (a : UInt8) : (sextet₁ a).toNat < 64 := by
  refine toNat_lt_of_and (byte_ext fun i hi => ?_)
  simp only [sextet₁]
  interval_cases i <;> simp [BitVec.getLsbD_of_ge]

theorem sextet₂_lt (a b : UInt8) : (sextet₂ a b).toNat < 64 := by
  refine toNat_lt_of_and (byte_ext fun i hi => ?_)
  simp only [sextet₂]
  interval_cases i <;> simp [BitVec.getLsbD_of_ge]

theorem sextet₃_lt (b c : UInt8) : (sextet₃ b c).toNat < 64 := by
  refine toNat_lt_of_and (byte_ext fun i hi => ?_)
  simp only [sextet₃]
  interval_cases i <;> simp [BitVec.getLsbD_of_ge]

theorem sextet₄_lt (c : UInt8) : (sextet₄ c).toNat < 64 := by
  refine toNat_lt_of_and (byte_ext fun i hi => ?_)
  simp only [sextet₄]
  interval_cases i <;> simp

end Lib
