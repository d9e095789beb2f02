/-
Machine words as byte strings: `leBytes w n` is the `w` low bytes of `n`,
least significant first, and `leNat` reads them back; `beBytes` and `beNat`
are the same the other way round. Reading back is exact on `w` bytes, and
loses exactly the bits above `8 * w`.
-/
import Mathlib.Data.List.Basic
import Mathlib.Tactic.Ring

namespace Lib

abbrev Bytes := List UInt8

/-- The `w` low bytes of `n`, least significant first. -/
def leBytes : Nat → Nat → Bytes
  | 0, _ => []
  | w + 1, n => UInt8.ofNat n :: leBytes w (n / 256)

/-- The number with these bytes, least significant first. -/
def leNat : Bytes → Nat
  | [] => 0
  | b :: bs => b.toNat + 256 * leNat bs

@[simp] theorem leBytes_length (w n : Nat) : (leBytes w n).length = w := by
  induction w generalizing n with
  | zero => rfl
  | succ w ih => simp [leBytes, ih]

theorem leNat_lt (bs : Bytes) : leNat bs < 256 ^ bs.length := by
  induction bs with
  | nil => simp [leNat]
  | cons b bs ih =>
    have hb : b.toNat < 256 := b.toNat_lt
    simp only [leNat, List.length_cons, pow_succ]
    omega

theorem leNat_leBytes (w n : Nat) : leNat (leBytes w n) = n % 256 ^ w := by
  induction w generalizing n with
  | zero => simp [leBytes, leNat, Nat.mod_one]
  | succ w ih =>
    rw [leBytes, leNat, ih, pow_succ', Nat.mod_mul]
    simp

theorem leNat_leBytes_of_lt {w n : Nat} (h : n < 256 ^ w) : leNat (leBytes w n) = n := by
  rw [leNat_leBytes, Nat.mod_eq_of_lt h]

theorem leBytes_leNat (bs : Bytes) : leBytes bs.length (leNat bs) = bs := by
  induction bs with
  | nil => rfl
  | cons b bs ih =>
    have hb : b.toNat < 256 := b.toNat_lt
    simp only [List.length_cons, leBytes, leNat, List.cons.injEq]
    refine ⟨?_, ?_⟩
    · apply UInt8.toNat_inj.mp
      simp
    · rw [show (b.toNat + 256 * leNat bs) / 256 = leNat bs by omega, ih]

theorem leNat_append (as bs : Bytes) : leNat (as ++ bs) = leNat as + 256 ^ as.length * leNat bs := by
  induction as with
  | nil => simp [leNat]
  | cons a as ih =>
    simp only [List.cons_append, leNat, ih, List.length_cons, pow_succ]
    ring

/-- Two byte strings of one length that read as the same number are equal. -/
theorem leNat_inj {as bs : Bytes} (hl : as.length = bs.length) (h : leNat as = leNat bs) : as = bs := by
  rw [← leBytes_leNat as, ← leBytes_leNat bs, hl, h]

/-- The `w` low bytes of `n`, most significant first. -/
def beBytes (w n : Nat) : Bytes := (leBytes w n).reverse

/-- The number with these bytes, most significant first. -/
def beNat (bs : Bytes) : Nat := leNat bs.reverse

@[simp] theorem beBytes_length (w n : Nat) : (beBytes w n).length = w := by simp [beBytes]

theorem beNat_lt (bs : Bytes) : beNat bs < 256 ^ bs.length := by
  simpa [beNat] using leNat_lt bs.reverse

theorem beNat_append (as bs : Bytes) : beNat (as ++ bs) = beNat as * 256 ^ bs.length + beNat bs := by
  simp only [beNat, List.reverse_append, leNat_append, List.length_reverse]
  ring

theorem beNat_beBytes (w n : Nat) : beNat (beBytes w n) = n % 256 ^ w := by
  simp [beNat, beBytes, leNat_leBytes]

theorem beNat_beBytes_of_lt {w n : Nat} (h : n < 256 ^ w) : beNat (beBytes w n) = n := by
  rw [beNat_beBytes, Nat.mod_eq_of_lt h]

end Lib
