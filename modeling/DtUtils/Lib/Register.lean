/-
Checksum registers: a register takes in one symbol after the other. If no
symbol makes two different registers equal (`Reversible`), and few enough
symbols can be told from what they make of a register (`Separates`), then a
change of that many consecutive symbols never goes unnoticed
(`Burst.detected`), whatever comes before and behind them.
-/
import Mathlib.Data.List.Basic

namespace Lib

variable {σ β : Type*} {step : σ → β → σ}

/-- No symbol makes two registers equal that were not. -/
def Reversible (step : σ → β → σ) : Prop := ∀ b, Function.Injective fun s => step s b

/-- Up to `n` symbols can be told from what they make of a register. -/
def Separates (step : σ → β → σ) (n : Nat) : Prop :=
  ∀ s {w w' : List β}, w'.length = w.length → w.length ≤ n → w'.foldl step s = w.foldl step s → w' = w

/-- `l'` is `l` with some of the `n` items from `off` on changed. -/
structure Burst (off n : Nat) (l l' : List β) : Prop where
  length : l'.length = l.length
  inside : ∀ i, l'[i]? ≠ l[i]? → off ≤ i ∧ i < off + n

theorem Reversible.foldl (h : Reversible step) (bs : List β) : Function.Injective fun s => bs.foldl step s := by
  induction bs with
  | nil => exact fun _ _ h => h
  | cons b bs ih => exact fun _ _ he => h b (ih he)

section
variable {off n : Nat} {l l' : List β}

theorem Burst.take (h : Burst off n l l') (k : Nat) : Burst off n (l.take k) (l'.take k) where
  length := by rw [List.length_take, List.length_take, h.length]
  inside i hi := by
    refine h.inside i fun he => hi ?_
    rw [List.getElem?_take, List.getElem?_take, he]

theorem Burst.drop (h : Burst off n l l') (k : Nat) : Burst (off - k) n (l.drop k) (l'.drop k) where
  length := by rw [List.length_drop, List.length_drop, h.length]
  inside i hi := by
    rw [List.getElem?_drop, List.getElem?_drop] at hi
    have := h.inside _ hi
    omega

/-- What comes before the burst and behind it is the same. -/
theorem Burst.take_eq (h : Burst off n l l') : l'.take off = l.take off := by
  refine List.ext_getElem? fun i => ?_
  by_contra hi
  have hlt : i < off := by
    by_contra hge
    rw [List.getElem?_take, List.getElem?_take, if_neg hge, if_neg hge] at hi
    exact hi rfl
  have := (h.take off).inside i hi
  omega

theorem Burst.drop_eq (h : Burst off n l l') : l'.drop (off + n) = l.drop (off + n) := by
  refine List.ext_getElem? fun i => ?_
  by_contra hi
  rw [List.getElem?_drop, List.getElem?_drop] at hi
  have := h.inside _ hi
  omega

theorem Burst.mid (a c : List β) {w w' : List β} (h : w'.length = w.length) :
    Burst a.length w.length (a ++ w ++ c) (a ++ w' ++ c) where
  length := by simp only [List.length_append, h]
  inside i hi := by
    by_contra hout
    refine hi ?_
    by_cases hlt : i < a.length
    · simp only [List.append_assoc, List.getElem?_append_left hlt]
    · rw [List.getElem?_append_right (by rw [List.length_append]; omega),
        List.getElem?_append_right (by rw [List.length_append]; omega), List.length_append, List.length_append, h]

/-- A change of up to `n` consecutive symbols changes the register. -/
theorem Burst.detected (hr : Reversible step) (hs : Separates step n) (h : Burst off n l l') (hne : l' ≠ l) (s : σ) :
    l'.foldl step s ≠ l.foldl step s := by
  have hsplit : ∀ x : List β, x = x.take off ++ ((x.drop off).take n ++ x.drop (off + n)) := fun x => by
    rw [← List.drop_drop, List.take_append_drop, List.take_append_drop]
  have hlen : ((l'.drop off).take n).length = ((l.drop off).take n).length := by
    simp only [List.length_take, List.length_drop, h.length]
  intro he
  rw [hsplit l', hsplit l, h.take_eq, h.drop_eq] at he
  simp only [List.foldl_append] at he
  have hw := hs _ hlen (by simp only [List.length_take]; omega) (hr.foldl _ he)
  exact hne (by rw [hsplit l', hsplit l, h.take_eq, h.drop_eq, hw])

end

end Lib
