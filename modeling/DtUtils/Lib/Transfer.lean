/-
Transfers in pieces: a call is repeated until all bytes are moved. Every call
fails, moves nothing, or moves some of the bytes that are left, at most `limit`
of them at once. How a transfer goes is settled by the answers to its calls
(`exists_transfer`, `Transfer.unique`).
-/
import Mathlib.Data.Stream.Defs
import Mathlib.Order.Nat

namespace Lib

inductive TransferEnd
  | complete
  | stalled
  | failed
deriving DecidableEq

/-- What a call moves of `size` bytes if it is answered by `n`. -/
def movedAtOnce (limit n size : Nat) : Nat := min n (min size limit)

/-- `Transfer limit answers size moved e`: the calls for `size` bytes move
`moved` of them, and end like `e`. -/
inductive Transfer (limit : Nat) : Stream' (Option Nat) → Nat → Nat → TransferEnd → Prop
  | complete {answers} : Transfer limit answers 0 0 .complete
  | stalled {answers size} : 0 < size → answers.head = some 0 → Transfer limit answers size 0 .stalled
  | failed {answers size} : 0 < size → answers.head = none → Transfer limit answers size 0 .failed
  | step {answers size n moved e} : 0 < size → answers.head = some n → 0 < n →
      Transfer limit answers.tail (size - movedAtOnce limit n size) moved e →
      Transfer limit answers size (movedAtOnce limit n size + moved) e

section
variable {limit n size moved : Nat} {answers : Stream' (Option Nat)} {e : TransferEnd}

theorem movedAtOnce_le : movedAtOnce limit n size ≤ size := (min_le_right _ _).trans (min_le_left _ _)

theorem movedAtOnce_pos (hlimit : 0 < limit) (hsize : 0 < size) : 0 < movedAtOnce limit n size ↔ 0 < n := by
  rw [movedAtOnce]
  omega

/-- Only a complete transfer moves all bytes. -/
theorem Transfer.moved_eq_iff (h : Transfer limit answers size moved e) :
    moved ≤ size ∧ (moved = size ↔ e = .complete) := by
  induction h with
  | complete => exact ⟨le_refl 0, iff_of_true rfl rfl⟩
  | stalled hsize => exact ⟨hsize.le, iff_of_false (by omega) (by simp)⟩
  | failed hsize => exact ⟨hsize.le, iff_of_false (by omega) (by simp)⟩
  | @step answers size n moved e _ _ _ _ ih =>
    obtain ⟨hle, hiff⟩ := ih
    have hmoved : movedAtOnce limit n size ≤ size := movedAtOnce_le
    refine ⟨by omega, ?_⟩
    rw [← hiff]
    omega

theorem Transfer.unique (h : Transfer limit answers size moved e) :
    ∀ {moved' e'}, Transfer limit answers size moved' e' → moved' = moved ∧ e' = e := by
  induction h with
  | complete =>
    intro moved' e' h'
    cases h' with
    | complete => exact ⟨rfl, rfl⟩
    | stalled hsize => exact absurd hsize (lt_irrefl 0)
    | failed hsize => exact absurd hsize (lt_irrefl 0)
    | step hsize => exact absurd hsize (lt_irrefl 0)
  | stalled hsize hhead =>
    intro moved' e' h'
    cases h' with
    | complete => exact absurd hsize (lt_irrefl 0)
    | stalled => exact ⟨rfl, rfl⟩
    | failed _ hhead' => cases hhead.symm.trans hhead'
    | step _ hhead' hpos =>
      cases hhead.symm.trans hhead'
      exact absurd hpos (lt_irrefl 0)
  | failed hsize hhead =>
    intro moved' e' h'
    cases h' with
    | complete => exact absurd hsize (lt_irrefl 0)
    | stalled _ hhead' => cases hhead.symm.trans hhead'
    | failed => exact ⟨rfl, rfl⟩
    | step _ hhead' => cases hhead.symm.trans hhead'
  | step hsize hhead hpos _ ih =>
    intro moved' e' h'
    cases h' with
    | complete => exact absurd hsize (lt_irrefl 0)
    | stalled _ hhead' =>
      cases hhead.symm.trans hhead'
      exact absurd hpos (lt_irrefl 0)
    | failed _ hhead' => cases hhead.symm.trans hhead'
    | step _ hhead' _ hrest =>
      cases hhead.symm.trans hhead'
      obtain ⟨rfl, rfl⟩ := ih hrest
      exact ⟨rfl, rfl⟩

/-- Every transfer ends: a call that moves something leaves less to do. -/
theorem exists_transfer (hlimit : 0 < limit) (answers : Stream' (Option Nat)) (size : Nat) :
    ∃ moved e, Transfer limit answers size moved e := by
  induction size using Nat.strong_induction_on generalizing answers with
  | _ size ih =>
    rcases Nat.eq_zero_or_pos size with rfl | hsize
    · exact ⟨0, .complete, .complete⟩
    · cases hhead : answers.head with
      | none => exact ⟨0, .failed, .failed hsize hhead⟩
      | some n =>
        rcases Nat.eq_zero_or_pos n with rfl | hpos
        · exact ⟨0, .stalled, .stalled hsize hhead⟩
        · have hmoved := (movedAtOnce_pos (n := n) hlimit hsize).2 hpos
          obtain ⟨moved, e, h⟩ := ih (size - movedAtOnce limit n size) (by omega) answers.tail
          exact ⟨_, e, .step hsize hhead hpos h⟩

end

end Lib
