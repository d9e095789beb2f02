/-
Loops over a list that thread a state and give one result for each item.
`sweep_forall₂` is the rule for a loop whose state keeps an invariant;
`forall₂_chain` puts two such loops over one list together.
-/
import Mathlib.Data.List.Forall2

namespace Lib

open List

variable {σ α β : Type*}

/-- The items of the list one after the other, each with the state the one
before it left. -/
def sweep (f : σ → α → σ × β) : σ → List α → σ × List β
  | s, [] => (s, [])
  | s, a :: as =>
    let (s, b) := f s a
    let (s, bs) := sweep f s as
    (s, b :: bs)

@[simp] theorem sweep_nil (f : σ → α → σ × β) (s : σ) : sweep f s [] = (s, []) := rfl

theorem sweep_cons (f : σ → α → σ × β) (s : σ) (a : α) (as : List α) :
    sweep f s (a :: as) = ((sweep f (f s a).1 as).1, (f s a).2 :: (sweep f (f s a).1 as).2) := rfl

/-- An invariant of the state, and what each item's result has to do with it. -/
theorem sweep_forall₂ {f : σ → α → σ × β} {I : σ → Prop} {R : α → β → Prop} {l : List α}
    (h : ∀ s, ∀ a ∈ l, I s → I (f s a).1 ∧ R a (f s a).2) {s : σ} (hs : I s) :
    I (sweep f s l).1 ∧ Forall₂ R l (sweep f s l).2 := by
  induction l generalizing s with
  | nil => exact ⟨hs, .nil⟩
  | cons a as ih =>
    obtain ⟨hI, hR⟩ := h s a (by simp) hs
    obtain ⟨hI', hR'⟩ := ih (fun s b hb => h s b (by simp [hb])) hI
    rw [sweep_cons]
    exact ⟨hI', .cons hR hR'⟩

/-- A loop that does the same to the images of the items. -/
theorem sweep_map {γ δ : Type*} {f : σ → α → σ × β} {g : σ → γ → σ × δ} {p : α → γ} {q : β → δ}
    (h : ∀ s a, g s (p a) = ((f s a).1, q (f s a).2)) (s : σ) (l : List α) :
    sweep g s (l.map p) = ((sweep f s l).1, (sweep f s l).2.map q) := by
  induction l generalizing s with
  | nil => rfl
  | cons a as ih => rw [List.map_cons, sweep_cons, sweep_cons, h, ih, List.map_cons]

/-- Item by item, through a list in the middle. -/
theorem forall₂_chain {γ : Type*} {R : α → β → Prop} {S : β → γ → Prop} {T : α → γ → Prop}
    (h : ∀ a b c, R a b → S b c → T a c) {l : List α} {m : List β} {r : List γ} (hR : Forall₂ R l m)
    (hS : Forall₂ S m r) : Forall₂ T l r := by
  induction hR generalizing r with
  | nil =>
    cases hS
    exact .nil
  | cons hab _ ih =>
    cases hS with
    | cons hbc hS => exact .cons (h _ _ _ hab hbc) (ih hS)

theorem forall₂_mem_left {R : α → β → Prop} {l : List α} {m : List β} (h : Forall₂ R l m) {a : α} (ha : a ∈ l) :
    ∃ b ∈ m, R a b := by
  induction h with
  | nil => cases ha
  | @cons x y _ _ hxy _ ih =>
    rcases mem_cons.1 ha with rfl | ha
    · exact ⟨y, by simp, hxy⟩
    · obtain ⟨b, hb, hR⟩ := ih ha
      exact ⟨b, by simp [hb], hR⟩

theorem forall₂_mem_right {R : α → β → Prop} {l : List α} {m : List β} (h : Forall₂ R l m) {b : β} (hb : b ∈ m) :
    ∃ a ∈ l, R a b := by
  obtain ⟨a, ha, hR⟩ := forall₂_mem_left h.flip hb
  exact ⟨a, ha, hR⟩

/-- Lists that agree item by item in what they select. -/
theorem filterMap_forall₂ {γ : Type*} {f : α → Option γ} {g : β → Option γ} {l : List α} {m : List β}
    (h : Forall₂ (fun a b => f a = g b) l m) : l.filterMap f = m.filterMap g := by
  induction h with
  | nil => rfl
  | cons hab _ ih => rw [List.filterMap_cons, List.filterMap_cons, hab, ih]

/-- The first marked item, with the items before and behind it. -/
def firstMarked : List (α × Bool) → Option (List α × α × List α)
  | [] => none
  | (a, true) :: l => some ([], a, l.map Prod.fst)
  | (a, false) :: l => (firstMarked l).map fun (front, b, back) => (a :: front, b, back)

theorem firstMarked_map {γ : Type*} (p : α → γ) (l : List (α × Bool)) :
    firstMarked (l.map fun x => (p x.1, x.2)) =
      (firstMarked l).map fun (front, a, back) => (front.map p, p a, back.map p) := by
  induction l with
  | nil => rfl
  | cons x l ih =>
    obtain ⟨a, m⟩ := x
    cases m with
    | true => simp [firstMarked]
    | false =>
      simp only [List.map_cons, firstMarked, ih]
      cases firstMarked l <;> rfl

theorem firstMarked_some {l : List (α × Bool)} {front back : List α} {a : α}
    (h : firstMarked l = some (front, a, back)) :
    ∃ rest, l = front.map (fun x => (x, false)) ++ (a, true) :: rest ∧ back = rest.map Prod.fst := by
  induction l generalizing front with
  | nil => simp [firstMarked] at h
  | cons x l ih =>
    obtain ⟨b, m⟩ := x
    cases m with
    | true =>
      simp only [firstMarked, Option.some.injEq, Prod.mk.injEq] at h
      obtain ⟨rfl, rfl, rfl⟩ := h
      exact ⟨l, rfl, rfl⟩
    | false =>
      simp only [firstMarked, Option.map_eq_some_iff, Prod.mk.injEq] at h
      obtain ⟨⟨front', c, back'⟩, hm, rfl, rfl, rfl⟩ := h
      obtain ⟨rest, rfl, rfl⟩ := ih hm
      exact ⟨rest, rfl, rfl⟩

end Lib
