/-
Lists put together item by item out of two lists, as overwriting one with the
other leaves them when it is broken off, any number of times.
-/
import Mathlib.Data.List.Basic

namespace Lib

variable {α : Type*}

/-- Each item of `m` is the item of `p` or of `q` in its place. -/
def Mixture (p q m : List α) : Prop := m.length = p.length ∧ ∀ i : Nat, m[i]? = p[i]? ∨ m[i]? = q[i]?

/-- `m` with its first `j` items replaced by those of `p`. -/
def overwrite (p : List α) (j : Nat) (m : List α) : List α := p.take j ++ m.drop j

section
variable {p q m : List α}

theorem getElem?_overwrite (h : m.length = p.length) (i j : Nat) :
    (overwrite p j m)[i]? = if i < j then p[i]? else m[i]? := by
  rw [overwrite, List.getElem?_append, List.length_take, List.getElem?_take, List.getElem?_drop]
  rcases Nat.le_total j p.length with hj | hj
  · rw [Nat.min_eq_left hj]
    split
    · rfl
    · congr 1; omega
  · rw [Nat.min_eq_right hj]
    by_cases hi : i < p.length
    · rw [if_pos hi, if_pos (by omega), if_pos (by omega)]
    · have hp : p[i]? = none := List.getElem?_eq_none (by omega)
      have hm : m[i]? = none := List.getElem?_eq_none (by omega)
      have hx : m[j + (i - p.length)]? = none := List.getElem?_eq_none (by omega)
      rw [if_neg hi, hx, hp, hm, ite_self]

@[simp] theorem overwrite_length (h : m.length = p.length) (j : Nat) : (overwrite p j m).length = p.length := by
  rw [overwrite, List.length_append, List.length_take, List.length_drop]
  omega

theorem overwrite_self (p : List α) (j : Nat) : overwrite p j p = p := List.take_append_drop j p

theorem overwrite_of_le (h : m.length = p.length) {j : Nat} (hj : p.length ≤ j) : overwrite p j m = p := by
  rw [overwrite, List.take_of_length_le hj, List.drop_of_length_le (by omega), List.append_nil]

theorem Mixture.left : Mixture p q p := ⟨rfl, fun _ => .inl rfl⟩

theorem Mixture.right (h : q.length = p.length) : Mixture p q q := ⟨h, fun _ => .inr rfl⟩

theorem Mixture.overwrite_left (hm : Mixture p q m) (j : Nat) : Mixture p q (overwrite p j m) := by
  refine ⟨overwrite_length hm.1 j, fun i => ?_⟩
  rw [getElem?_overwrite hm.1]
  split
  · exact .inl rfl
  · exact hm.2 i

/-- Overwriting with `p` never completes `q` out of a mixture that was not
`q` yet. -/
theorem Mixture.eq_of_overwrite (hm : Mixture p q m) {j : Nat} (h : overwrite p j m = q) : m = q := by
  apply List.ext_getElem?
  intro i
  have hi := congrArg (fun l => l[i]?) h
  simp only [getElem?_overwrite hm.1] at hi
  split at hi
  · rcases hm.2 i with hp | hq
    · exact hp.trans hi
    · exact hq
  · exact hi

theorem Mixture.swap (h : q.length = p.length) (hm : Mixture p q m) : Mixture q p m :=
  ⟨hm.1.trans h.symm, fun i => (hm.2 i).symm⟩

end

end Lib
