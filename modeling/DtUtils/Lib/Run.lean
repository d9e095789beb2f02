/-
Labelled transition systems: runs from an initial state, the rule for
invariants, and forward simulation. The labels of a run are listed newest
first, so that a property of a history is read off its head.
-/
import Mathlib.Data.List.Basic

namespace Lib

structure System (σ ω : Type*) where
  init : σ → Prop
  step : σ → ω → σ → Prop

variable {σ ω τ : Type*}

/-- `S.Run ls s`: the steps `ls`, newest first, lead from an initial state to `s`. -/
inductive System.Run (S : System σ ω) : List ω → σ → Prop
  | init {s} : S.init s → S.Run [] s
  | step {ls s l s'} : S.Run ls s → S.step s l s' → S.Run (l :: ls) s'

/-- A property of states with their history that holds at first and is kept
by every step. -/
structure System.Invariant (S : System σ ω) (I : List ω → σ → Prop) : Prop where
  init : ∀ {s}, S.init s → I [] s
  step : ∀ {ls s l s'}, I ls s → S.step s l s' → I (l :: ls) s'

/-- An invariant holds after every run. -/
theorem System.Invariant.run {S : System σ ω} {I : List ω → σ → Prop} (h : S.Invariant I) {ls : List ω} {s : σ}
    (hr : S.Run ls s) : I ls s := by
  induction hr with
  | init hi => exact h.init hi
  | step _ hs ih => exact h.step ih hs

/-- The runs whose steps all meet `G`, which sees the history, the state and the
step to come. -/
inductive System.RunIf (S : System σ ω) (G : List ω → σ → ω → Prop) : List ω → σ → Prop
  | init {s} : S.init s → S.RunIf G [] s
  | step {ls s l s'} : S.RunIf G ls s → G ls s l → S.step s l s' → S.RunIf G (l :: ls) s'

theorem System.RunIf.run {S : System σ ω} {G : List ω → σ → ω → Prop} {ls : List ω} {s : σ} (h : S.RunIf G ls s) :
    S.Run ls s := by
  induction h with
  | init hi => exact .init hi
  | step _ _ hs ih => exact .step ih hs

/-- A property that such steps keep holds after these runs. -/
theorem System.RunIf.invariant {S : System σ ω} {G : List ω → σ → ω → Prop} {I : List ω → σ → Prop} {ls : List ω}
    {s : σ} (hr : S.RunIf G ls s) (init : ∀ {s}, S.init s → I [] s)
    (step : ∀ {ls s l s'}, I ls s → G ls s l → S.step s l s' → I (l :: ls) s') : I ls s := by
  induction hr with
  | init hi => exact init hi
  | step _ hG hs ih => exact step ih hG hs

/-- Steps of `S` are answered by steps of `A` on related states. -/
structure System.Simulation (S : System σ ω) (A : System τ ω) (R : σ → τ → Prop) : Prop where
  init : ∀ {s}, S.init s → ∃ t, A.init t ∧ R s t
  step : ∀ {s t l s'}, R s t → S.step s l s' → ∃ t', A.step t l t' ∧ R s' t'

/-- Every run of `S` is a run of `A` with the same labels. -/
theorem System.Simulation.run {S : System σ ω} {A : System τ ω} {R : σ → τ → Prop} (h : S.Simulation A R)
    {ls : List ω} {s : σ} (hr : S.Run ls s) : ∃ t, A.Run ls t ∧ R s t := by
  induction hr with
  | init hi =>
    obtain ⟨t, ht, hst⟩ := h.init hi
    exact ⟨t, .init ht, hst⟩
  | step _ hs ih =>
    obtain ⟨t, hrun, hst⟩ := ih
    obtain ⟨t', hs', hst'⟩ := h.step hst hs
    exact ⟨t', .step hrun hs', hst'⟩

end Lib
