/-
Hash functions that work block by block: a compression function folded over
the blocks of a message (`runBlocks`), a message that comes in pieces
(`absorb`), and the hash of a padded message (`blockHash`).

Feeding pieces does not depend on how the message is split
(`absorb_absorb`), and feeding the padding behind it ends with no bytes left
(`absorb_padded`).
-/
import DtUtils.Lib.Words

namespace Lib

section
variable {σ : Type} (compress : σ → Bytes → σ) (size : Nat)

/-- The state behind the first `n` blocks, and the bytes behind them. -/
def runBlocks : Nat → σ → Bytes → σ × Bytes
  | 0, state, src => (state, src)
  | n + 1, state, src => runBlocks n (compress state (src.take size)) (src.drop size)

/-- A piece of a message behind bytes that make no block yet. -/
def absorb (s : σ × Bytes) (piece : Bytes) : σ × Bytes :=
  runBlocks compress size ((s.2 ++ piece).length / size) s.1 (s.2 ++ piece)

/-- The hash of a message that the padding for its length brings to whole
blocks. -/
def blockHash (pad : Nat → Bytes) (start : σ) (m : Bytes) : σ :=
  (runBlocks compress size ((m ++ pad m.length).length / size) start (m ++ pad m.length)).1

end

section
variable {σ : Type} {compress : σ → Bytes → σ} {size : Nat}

theorem runBlocks_length : ∀ (n : Nat) (state : σ) (src : Bytes),
    (runBlocks compress size n state src).2.length = src.length - size * n
  | 0, _, _ => by rw [Nat.mul_zero, Nat.sub_zero, runBlocks]
  | n + 1, state, src => by
    rw [runBlocks, runBlocks_length n, List.length_drop, Nat.sub_sub, Nat.mul_succ, Nat.add_comm]

/-- The blocks that are there are not changed by what follows them. -/
theorem runBlocks_append : ∀ (n : Nat) (state : σ) (src rest : Bytes), size * n ≤ src.length →
    runBlocks compress size n state (src ++ rest) =
      ((runBlocks compress size n state src).1, (runBlocks compress size n state src).2 ++ rest)
  | 0, _, _, _, _ => rfl
  | n + 1, state, src, rest, h => by
    rw [Nat.mul_succ] at h
    rw [runBlocks, runBlocks, List.take_append_of_le_length (by omega), List.drop_append_of_le_length (by omega),
      runBlocks_append n _ _ _ (by rw [List.length_drop]; omega)]

theorem runBlocks_add : ∀ (n m : Nat) (state : σ) (src : Bytes), runBlocks compress size (n + m) state src =
    runBlocks compress size m (runBlocks compress size n state src).1 (runBlocks compress size n state src).2
  | 0, m, _, _ => by rw [Nat.zero_add, runBlocks]
  | n + 1, m, state, src => by
    rw [Nat.add_right_comm, runBlocks, runBlocks_add n m]
    rfl

theorem runBlocks_rest : ∀ (n : Nat) (state : σ) (src : Bytes),
    (runBlocks compress size n state src).2 = src.drop (size * n)
  | 0, _, _ => by rw [Nat.mul_zero, List.drop_zero, runBlocks]
  | n + 1, state, src => by rw [runBlocks, runBlocks_rest n, List.drop_drop, Nat.mul_succ, Nat.add_comm]

theorem absorb_length (s : σ × Bytes) (piece : Bytes) :
    (absorb compress size s piece).2.length = (s.2.length + piece.length) % size := by
  rw [absorb, runBlocks_length, List.length_append, Nat.mod_eq_sub]

/-- It does not matter how a message is split. -/
theorem absorb_absorb (hsize : 0 < size) (s : σ × Bytes) (a b : Bytes) :
    absorb compress size (absorb compress size s a) b = absorb compress size s (a ++ b) := by
  obtain ⟨r, hr⟩ : ∃ r, r = absorb compress size s a := ⟨_, rfl⟩
  have hlen : r.2.length = (s.2 ++ a).length - size * ((s.2 ++ a).length / size) := by rw [hr, absorb, runBlocks_length]
  have hblocks : (s.2 ++ (a ++ b)).length / size = (s.2 ++ a).length / size + (r.2 ++ b).length / size := by
    have hle := Nat.mul_div_le (s.2 ++ a).length size
    have hsplit : (s.2 ++ (a ++ b)).length = (r.2 ++ b).length + size * ((s.2 ++ a).length / size) := by
      rw [← List.append_assoc, @List.length_append _ (s.2 ++ a), @List.length_append _ r.2, hlen]
      omega
    rw [hsplit, Nat.add_mul_div_left _ _ hsize, Nat.add_comm]
  rw [← hr]
  conv_rhs => rw [absorb, hblocks, runBlocks_add, ← List.append_assoc, runBlocks_append _ _ _ _ (Nat.mul_div_le _ _)]
  rw [absorb, hr, absorb]

theorem absorb_padded {pad : Nat → Bytes} {m : Bytes} (hpad : size ∣ (m ++ pad m.length).length) (start : σ) :
    absorb compress size (start, []) (m ++ pad m.length) = (blockHash compress size pad start m, []) := by
  have hrest : (absorb compress size (start, []) (m ++ pad m.length)).2 = [] := by
    refine List.eq_nil_of_length_eq_zero ?_
    rw [absorb_length, List.length_nil, Nat.zero_add]
    exact Nat.mod_eq_zero_of_dvd hpad
  exact Prod.ext rfl hrest

end

end Lib
