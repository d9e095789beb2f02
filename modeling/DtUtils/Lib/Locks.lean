/-
Processes that share a store under locks, each of which is kept until its process
ends or is killed. Whatever the order of their moves, the store is what the
processes leave one after the other, in the order in which they ended
(`Program.serialised`).

The proof keeps for each process that runs what it would have done by itself on
the store that the ended ones left (`Serialised.running`). Another process that
ends changes what that one cannot see.

A machine whose moves keep to the locks only in states with an invariant is a
program on these states (`Machine.Confined.program`).
-/
import DtUtils.Lib.Run
import Mathlib.Data.Set.Insert
import Mathlib.Logic.Function.Iterate

namespace Lib

/-- What a process does next. -/
inductive Move (κ ρ V L : Type*)
  | lock (r : ρ) (next : L)
  | act (f : (κ → V) → (κ → V) × L)
  | done

/-- What each state of a process does next, and the locks that it has there. -/
structure Machine (κ ρ V L : Type*) where
  move : L → Move κ ρ V L
  held : L → Set ρ

/-- A move reads and writes only what is under the locks that the process has. -/
structure Program (κ ρ V L : Type*) extends Machine κ ρ V L where
  guard : κ → ρ
  lock_held : ∀ {l r l'}, move l = .lock r l' → held l' = insert r (held l)
  act_held : ∀ {l f}, move l = .act f → ∀ e, held (f e).2 = held l
  act_out : ∀ {l f}, move l = .act f → ∀ e k, guard k ∉ held l → (f e).1 k = e k
  act_in : ∀ {l f}, move l = .act f → ∀ {e e'}, (∀ k, guard k ∈ held l → e k = e' k) →
    (f e).2 = (f e').2 ∧ ∀ k, guard k ∈ held l → (f e).1 k = (f e').1 k

/-- The store, and the states of the processes with whether they ended. -/
structure Shared (ι κ V L : Type*) where
  store : κ → V
  procs : ι → L
  ended : ι → Bool

inductive Action
  | lock
  | act
  | done
  | kill
deriving DecidableEq

variable {ι κ ρ V L : Type*}

section
variable [DecidableEq ι] (P : Machine κ ρ V L) (start : ι → L) (store₀ : κ → V)

/-- The processes' moves in any order, as far as the locks let them. -/
def Machine.system : System (Shared ι κ V L) (ι × Action) where
  init x := x = ⟨store₀, start, fun _ => false⟩
  step x l x' := x.ended l.1 = false ∧
    match l.2 with
    | .lock => ∃ r next, P.move (x.procs l.1) = .lock r next ∧ (∀ j, x.ended j = false → r ∉ P.held (x.procs j)) ∧
        x' = { x with procs := Function.update x.procs l.1 next }
    | .act => ∃ f, P.move (x.procs l.1) = .act f ∧
        x' = { x with store := (f x.store).1, procs := Function.update x.procs l.1 (f x.store).2 }
    | .done => P.move (x.procs l.1) = .done ∧ x' = { x with ended := Function.update x.ended l.1 true }
    | .kill => x' = { x with ended := Function.update x.ended l.1 true }

/-! ## One process after the other -/

/-- A move of a process that is alone. -/
def Machine.alone (x : (κ → V) × L) : (κ → V) × L :=
  match P.move x.2 with
  | .lock _ next => (x.1, next)
  | .act f => f x.1
  | .done => x

/-- How many moves process `i` made. -/
def moves (i : ι) (ls : List (ι × Action)) : Nat := ls.countP (·.1 = i)

/-- The processes that ended, with how many moves each one had made. -/
def endings : List (ι × Action) → List (ι × Nat)
  | [] => []
  | (i, .done) :: ls => (i, moves i ls) :: endings ls
  | (i, .kill) :: ls => (i, moves i ls) :: endings ls
  | _ :: ls => endings ls

/-- The store when the processes make their moves one process after the other. -/
def Machine.serial : List (ι × Nat) → κ → V
  | [] => store₀
  | (i, n) :: order => (P.alone^[n] (Machine.serial order, start i)).1

end

/-! ## What a process by itself sees -/

section
variable {P : Program κ ρ V L}

theorem alone_held (x : (κ → V) × L) : P.held x.2 ⊆ P.held (P.alone x).2 := by
  rw [Machine.alone]
  split
  · next h =>
    rw [P.lock_held h]
    exact Set.subset_insert _ _
  · next h => rw [P.act_held h]
  · exact subset_rfl

theorem alone_out {x : (κ → V) × L} {k : κ} : ∀ {n : Nat}, P.guard k ∉ P.held (P.alone^[n] x).2 →
    (P.alone^[n] x).1 k = x.1 k
  | 0, _ => rfl
  | n + 1, h => by
    rw [Function.iterate_succ_apply'] at h ⊢
    have hbefore : P.guard k ∉ P.held (P.alone^[n] x).2 := fun hk => h (alone_held _ hk)
    rw [← alone_out hbefore, Machine.alone]
    split
    · rfl
    · next hm => exact P.act_out hm _ k hbefore
    · rfl

/-- Stores that agree on what is locked in the end lead to the same. -/
theorem alone_in {e d : κ → V} {l : L} : ∀ {n : Nat},
    (∀ k, P.guard k ∈ P.held (P.alone^[n] (e, l)).2 → e k = d k) →
      (P.alone^[n] (e, l)).2 = (P.alone^[n] (d, l)).2 ∧
        ∀ k, e k = d k → (P.alone^[n] (e, l)).1 k = (P.alone^[n] (d, l)).1 k
  | 0, _ => ⟨rfl, fun _ h => h⟩
  | n + 1, h => by
    rw [Function.iterate_succ_apply'] at h
    rw [Function.iterate_succ_apply', Function.iterate_succ_apply']
    obtain ⟨hl, hk⟩ := alone_in (n := n) fun k hk => h k (alone_held _ hk)
    rcases hx : P.alone^[n] (e, l) with ⟨y, m⟩
    rcases hx' : P.alone^[n] (d, l) with ⟨y', m'⟩
    rw [hx, hx'] at hl hk
    obtain rfl : m = m' := hl
    rw [hx] at h
    simp only [Machine.alone] at h ⊢
    cases hm : P.move m with
    | lock r next => exact ⟨rfl, hk⟩
    | done => exact ⟨rfl, hk⟩
    | act f =>
      simp only [hm, P.act_held hm] at h
      obtain ⟨hnext, hin⟩ := P.act_in hm fun k hheld => hk k (h k hheld)
      refine ⟨hnext, fun k hek => ?_⟩
      by_cases hheld : P.guard k ∈ P.held m
      · exact hin k hheld
      · exact (P.act_out hm y k hheld).trans ((hk k hek).trans (P.act_out hm y' k hheld).symm)

end

/-! ## The order of the ends -/

section
variable [DecidableEq ι]

theorem moves_cons_self (i : ι) (a : Action) (ls : List (ι × Action)) : moves i ((i, a) :: ls) = moves i ls + 1 := by
  simp [moves]

theorem moves_cons_ne {i j : ι} (h : i ≠ j) (a : Action) (ls : List (ι × Action)) :
    moves j ((i, a) :: ls) = moves j ls := by
  simp [moves, h]

theorem endings_append {ls' : List (ι × Action)} (h : ∀ l ∈ ls', l.2 ≠ .done ∧ l.2 ≠ .kill) (ls : List (ι × Action)) :
    endings (ls' ++ ls) = endings ls := by
  induction ls' with
  | nil => rfl
  | cons l ls' ih =>
    rw [List.forall_mem_cons] at h
    obtain ⟨i, a⟩ := l
    cases a with
    | done => exact absurd rfl h.1.1
    | kill => exact absurd rfl h.1.2
    | lock => exact ih h.2
    | act => exact ih h.2

variable (P : Program κ ρ V L) (start : ι → L) (store₀ : κ → V)

/-- Every process did what it does by itself after those that ended before. -/
structure Serialised (ls : List (ι × Action)) (x : Shared ι κ V L) : Prop where
  nodup : ((endings ls).map Prod.fst).Nodup
  ended : ∀ i, x.ended i = true ↔ i ∈ (endings ls).map Prod.fst
  result : ∀ {front i n back}, endings ls = front ++ (i, n) :: back →
    x.procs i = (P.alone^[n] (P.serial start store₀ back, start i)).2
  running : ∀ i, x.ended i = false → ∃ e,
    P.alone^[moves i ls] (P.serial start store₀ (endings ls), start i) = (e, x.procs i) ∧
      ∀ k, P.guard k ∈ P.held (x.procs i) → x.store k = e k
  free : ∀ k, (∀ i, x.ended i = false → P.guard k ∉ P.held (x.procs i)) → x.store k = P.serial start store₀ (endings ls) k
  apart : ∀ {i j}, x.ended i = false → x.ended j = false → i ≠ j → ∀ r ∈ P.held (x.procs i), r ∉ P.held (x.procs j)

variable {P start store₀}

theorem Serialised.ended_of {ls : List (ι × Action)} {x : Shared ι κ V L} (h : Serialised P start store₀ ls x) {i : ι}
    {n : Nat} {front back : List (ι × Nat)} (hfront : endings ls = front ++ (i, n) :: back) : x.ended i = true :=
  (h.ended i).2 (List.mem_map.2 ⟨(i, n), by simp [hfront], rfl⟩)

theorem Serialised.lock {ls : List (ι × Action)} {x : Shared ι κ V L} (h : Serialised P start store₀ ls x) {i : ι}
    (hi : x.ended i = false) {r : ρ} {next : L} (hmove : P.move (x.procs i) = .lock r next)
    (hfree : ∀ j, x.ended j = false → r ∉ P.held (x.procs j)) :
    Serialised P start store₀ ((i, .lock) :: ls) { x with procs := Function.update x.procs i next } := by
  have hheld := P.lock_held hmove
  have hself : Function.update x.procs i next i = next := Function.update_self ..
  have hother {j : ι} (hj : j ≠ i) : Function.update x.procs i next j = x.procs j := Function.update_of_ne hj ..
  refine ⟨h.nodup, h.ended, fun hfront => ?_, fun j hj => ?_, fun k hk => ?_, fun {j j'} hj hj' hne r' hr' => ?_⟩
  · next front j n back =>
    have hji : j ≠ i := by
      rintro rfl
      rw [h.ended_of hfront] at hi
      cases hi
    simp only [hother hji]
    exact h.result hfront
  · obtain ⟨e, hrun, hin⟩ := h.running j hj
    by_cases hji : j = i
    · subst hji
      refine ⟨e, ?_, fun k hk => ?_⟩
      · rw [moves_cons_self, Function.iterate_succ_apply', show endings ((j, Action.lock) :: ls) = endings ls from rfl, hrun]
        simp only [Machine.alone, hmove, hself]
      simp only [hself, hheld] at hk
      rcases hk with rfl | hk
      · -- Nobody had the lock, so that the process is the first to see this key.
        have hout := alone_out (P := P) (x := (P.serial start store₀ (endings ls), start j)) (k := k) (n := moves j ls)
          (by rw [hrun]; exact hfree j hj)
        rw [hrun] at hout
        exact (h.free k hfree).trans hout.symm
      · exact hin k hk
    · simp only [hother hji] at hin ⊢
      exact ⟨e, by rw [moves_cons_ne (Ne.symm hji)]; exact hrun, hin⟩
  · refine h.free k fun j hj => ?_
    have := hk j hj
    by_cases hji : j = i
    · subst hji
      simp only [hself, hheld] at this
      exact fun hmem => this (.inr hmem)
    · simpa only [hother hji] using this
  · by_cases hji : j = i
    · subst hji
      simp only [hself, hheld, hother (Ne.symm hne)] at hr' ⊢
      rcases hr' with rfl | hr'
      · exact hfree j' hj'
      · exact h.apart hj hj' hne r' hr'
    · simp only [hother hji] at hr'
      by_cases hji' : j' = i
      · subst hji'
        simp only [hself, hheld]
        rintro (rfl | hmem)
        · exact hfree j hj hr'
        · exact h.apart hj hj' hne r' hr' hmem
      · simp only [hother hji']
        exact h.apart hj hj' hne r' hr'

theorem Serialised.act {ls : List (ι × Action)} {x : Shared ι κ V L} (h : Serialised P start store₀ ls x) {i : ι}
    (hi : x.ended i = false) {f : (κ → V) → (κ → V) × L} (hmove : P.move (x.procs i) = .act f) :
    Serialised P start store₀ ((i, .act) :: ls)
      { x with store := (f x.store).1, procs := Function.update x.procs i (f x.store).2 } := by
  have hheld := P.act_held hmove x.store
  have hself : Function.update x.procs i (f x.store).2 i = (f x.store).2 := Function.update_self ..
  have hother {j : ι} (hj : j ≠ i) : Function.update x.procs i (f x.store).2 j = x.procs j := Function.update_of_ne hj ..
  have hkeeps (j : ι) : P.held (Function.update x.procs i (f x.store).2 j) = P.held (x.procs j) := by
    by_cases hji : j = i
    · rw [hji, hself, hheld]
    · rw [hother hji]
  refine ⟨h.nodup, h.ended, fun hfront => ?_, fun j hj => ?_, fun k hk => ?_, fun hj hj' hne r hr => ?_⟩
  · next front j n back =>
    have hji : j ≠ i := by
      rintro rfl
      rw [h.ended_of hfront] at hi
      cases hi
    simp only [hother hji]
    exact h.result hfront
  · obtain ⟨e, hrun, hin⟩ := h.running j hj
    by_cases hji : j = i
    · subst hji
      obtain ⟨hnext, hkeys⟩ := P.act_in hmove hin
      refine ⟨(f e).1, ?_, fun k hk => ?_⟩
      · rw [moves_cons_self, Function.iterate_succ_apply', show endings ((j, Action.act) :: ls) = endings ls from rfl, hrun]
        simp only [Machine.alone, hmove, Function.update_self, hnext]
      · rw [hkeeps] at hk
        exact hkeys k hk
    · simp only [hother hji]
      refine ⟨e, by rw [moves_cons_ne (Ne.symm hji)]; exact hrun, fun k hk => ?_⟩
      rw [P.act_out hmove x.store k (h.apart hj hi hji _ hk)]
      exact hin k hk
  · simp only [hkeeps] at hk
    exact (P.act_out hmove x.store k (hk i hi)).trans (h.free k hk)
  · rw [hkeeps] at hr ⊢
    exact h.apart hj hj' hne r hr

/-- A process that ends is the last one in the order. -/
theorem Serialised.finish {ls : List (ι × Action)} {x : Shared ι κ V L} (h : Serialised P start store₀ ls x) {i : ι}
    (hi : x.ended i = false) {a : Action} (ha : endings ((i, a) :: ls) = (i, moves i ls) :: endings ls) :
    Serialised P start store₀ ((i, a) :: ls) { x with ended := Function.update x.ended i true } := by
  have hrunning {j : ι} (hj : Function.update x.ended i true j = false) : j ≠ i ∧ x.ended j = false := by
    by_cases hji : j = i
    · rw [hji, Function.update_self] at hj
      cases hj
    · exact ⟨hji, by rwa [Function.update_of_ne hji] at hj⟩
  obtain ⟨e, hrun, hin⟩ := h.running i hi
  have hserial : P.serial start store₀ (endings ((i, a) :: ls)) = e := by
    rw [ha, Machine.serial, hrun]
  -- What the process left is new only where it had the locks.
  have hout (k : κ) (hk : P.guard k ∉ P.held (x.procs i)) : e k = P.serial start store₀ (endings ls) k := by
    have := alone_out (P := P) (x := (P.serial start store₀ (endings ls), start i)) (k := k) (n := moves i ls)
      (by rw [hrun]; exact hk)
    rwa [hrun] at this
  refine ⟨?_, fun j => ?_, fun {front j n back} hfront => ?_, fun j hj => ?_, fun k hk => ?_, fun hj hj' hne r hr => ?_⟩
  · rw [ha, List.map_cons, List.nodup_cons]
    refine ⟨fun hmem => ?_, h.nodup⟩
    rw [← h.ended, hi] at hmem
    cases hmem
  · rw [ha, List.map_cons, List.mem_cons, ← h.ended]
    by_cases hji : j = i
    · simp [hji]
    · simp [hji]
  · rw [ha] at hfront
    cases front with
    | nil =>
      simp only [List.nil_append, List.cons.injEq, Prod.mk.injEq] at hfront
      obtain ⟨⟨rfl, rfl⟩, rfl⟩ := hfront
      rw [hrun]
    | cons y front =>
      simp only [List.cons_append, List.cons.injEq] at hfront
      exact h.result hfront.2
  · obtain ⟨hji, hj⟩ := hrunning hj
    obtain ⟨e', hrun', hin'⟩ := h.running j hj
    have hsame (k : κ) (hk : P.guard k ∈ P.held (x.procs j)) : P.serial start store₀ (endings ls) k = e k :=
      (hout k (h.apart hj hi hji _ hk)).symm
    obtain ⟨hnext, hkeys⟩ := alone_in (P := P) (e := P.serial start store₀ (endings ls)) (d := e) (l := start j)
      (n := moves j ls) (by rw [hrun']; exact hsame)
    rw [hrun'] at hnext hkeys
    rw [hserial, moves_cons_ne (Ne.symm hji)]
    refine ⟨(P.alone^[moves j ls] (e, start j)).1, Prod.ext rfl hnext.symm, fun k hk => ?_⟩
    exact (hin' k hk).trans (hkeys k (hsame k hk))
  · rw [hserial]
    by_cases hheld : P.guard k ∈ P.held (x.procs i)
    · exact hin k hheld
    · rw [hout k hheld]
      refine h.free k fun j hj => ?_
      by_cases hji : j = i
      · rwa [hji]
      · exact hk j ((Function.update_of_ne hji ..).trans hj)
  · exact h.apart (hrunning hj).2 (hrunning hj').2 hne r hr

/-- **The locks serialise**: after every run the store and the processes are as
if the processes had run one after the other, in the order of their ends. -/
theorem Program.serialised (hstart : ∀ i, P.held (start i) = ∅) {ls : List (ι × Action)} {x : Shared ι κ V L}
    (hrun : (P.system start store₀).Run ls x) : Serialised P start store₀ ls x := by
  have hinv : (P.system start store₀).Invariant (Serialised P start store₀) := by
    refine ⟨fun hinit => ?_, fun {ls x l x'} h hstep => ?_⟩
    · obtain rfl := hinit
      refine ⟨List.nodup_nil, fun i => by simp [endings], fun hfront => ?_, fun i _ => ⟨store₀, rfl, fun _ _ => rfl⟩,
        fun _ _ => rfl, fun _ _ _ r hr => ?_⟩
      · simp [endings] at hfront
      · rw [hstart] at hr
        exact absurd hr (Set.notMem_empty r)
    · obtain ⟨i, a⟩ := l
      obtain ⟨hi, hstep⟩ := hstep
      cases a with
      | lock =>
        obtain ⟨r, next, hmove, hfree, rfl⟩ := hstep
        exact h.lock hi hmove hfree
      | act =>
        obtain ⟨f, hmove, rfl⟩ := hstep
        exact h.act hi hmove
      | done =>
        obtain ⟨-, rfl⟩ := hstep
        exact h.finish hi rfl
      | kill =>
        obtain rfl := hstep
        exact h.finish hi rfl
  exact hinv.run hrun

/-- When no process has a lock, the store is what the ended ones left. -/
theorem Serialised.quiet {ls : List (ι × Action)} {x : Shared ι κ V L} (h : Serialised P start store₀ ls x)
    (hquiet : ∀ i, x.ended i = false → P.held (x.procs i) = ∅) : x.store = P.serial start store₀ (endings ls) := by
  funext k
  exact h.free k fun i hi => by rw [hquiet i hi]; exact Set.notMem_empty _

end

/-! ## One process -/

section
variable [DecidableEq ι] {M : Machine κ ρ V L} {start : ι → L} {store₀ : κ → V}

/-- What every move of a process keeps holds of it in every run. -/
theorem Machine.each {Q : ι → L → Prop} (hstart : ∀ i, Q i (start i))
    (hlock : ∀ {i l r next}, M.move l = .lock r next → r ∉ M.held l → Q i l → Q i next)
    (hact : ∀ {i l f}, M.move l = .act f → ∀ e, Q i l → Q i (f e).2) {ls : List (ι × Action)} {x : Shared ι κ V L}
    (hrun : (M.system start store₀).Run ls x) : ∀ i, Q i (x.procs i) := by
  have hinv : (M.system start store₀).Invariant fun _ x => ∀ i, Q i (x.procs i) := by
    refine ⟨fun hinit => ?_, fun {ls x l x'} h hstep j => ?_⟩
    · obtain rfl := hinit
      exact hstart
    · obtain ⟨i, a⟩ := l
      obtain ⟨hi, hstep⟩ := hstep
      cases a with
      | lock =>
        obtain ⟨r, next, hmove, hfree, rfl⟩ := hstep
        by_cases hji : j = i
        · rw [hji]
          simpa only [Function.update_self] using hlock hmove (hfree i hi) (h i)
        · simpa only [Function.update_of_ne hji] using h j
      | act =>
        obtain ⟨f, hmove, rfl⟩ := hstep
        by_cases hji : j = i
        · rw [hji]
          simpa only [Function.update_self] using hact hmove x.store (h i)
        · simpa only [Function.update_of_ne hji] using h j
      | done =>
        obtain ⟨-, rfl⟩ := hstep
        exact h j
      | kill =>
        obtain rfl := hstep
        exact h j
  exact hinv.run hrun

theorem Machine.ended_done {ls : List (ι × Action)} {x : Shared ι κ V L} (hrun : (M.system start store₀).Run ls x)
    (hkill : ∀ l ∈ ls, l.2 ≠ .kill) {i : ι} (hi : x.ended i = true) : M.move (x.procs i) = .done := by
  have hinv : (M.system start store₀).Invariant fun ls x =>
      (∀ l ∈ ls, l.2 ≠ .kill) → ∀ i, x.ended i = true → M.move (x.procs i) = .done := by
    refine ⟨fun hinit _ i hi => ?_, fun {ls x l x'} h hstep hkill j hj => ?_⟩
    · obtain rfl := hinit
      cases hi
    · rw [List.forall_mem_cons] at hkill
      obtain ⟨i, a⟩ := l
      obtain ⟨hi, hstep⟩ := hstep
      -- Who moves has not ended.
      have hmoved {next : L} (hj : x.ended j = true) : M.move (Function.update x.procs i next j) = .done := by
        have hji : j ≠ i := by
          rintro rfl
          rw [hi] at hj
          cases hj
        rw [Function.update_of_ne hji]
        exact h hkill.2 j hj
      cases a with
      | lock =>
        obtain ⟨r, next, -, -, rfl⟩ := hstep
        exact hmoved hj
      | act =>
        obtain ⟨f, -, rfl⟩ := hstep
        exact hmoved hj
      | done =>
        obtain ⟨hdone, rfl⟩ := hstep
        by_cases hji : j = i
        · rw [hji]
          exact hdone
        · exact h hkill.2 j ((Function.update_of_ne hji ..).symm.trans hj)
      | kill => exact absurd rfl hkill.1
  exact hinv.run hrun hkill i hi

/-- Where nobody waits with a lock in hand, some process can go on. -/
theorem Machine.progress {x : Shared ι κ V L}
    (hsingle : ∀ j r next, M.move (x.procs j) = .lock r next → M.held (x.procs j) = ∅) {i : ι} (hi : x.ended i = false) :
    ∃ j a x', a ≠ .kill ∧ (M.system start store₀).step x (j, a) x' := by
  have hgo {j : ι} (hj : x.ended j = false) (hlocks : ∀ r next, M.move (x.procs j) = .lock r next →
      ∀ j', x.ended j' = false → r ∉ M.held (x.procs j')) :
      ∃ j a x', a ≠ .kill ∧ (M.system start store₀).step x (j, a) x' := by
    cases hm : M.move (x.procs j) with
    | lock r next => exact ⟨j, .lock, _, by decide, hj, r, next, hm, hlocks r next hm, rfl⟩
    | act f => exact ⟨j, .act, _, by decide, hj, f, hm, rfl⟩
    | done => exact ⟨j, .done, _, by decide, hj, hm, rfl⟩
  by_cases hholder : ∃ j, x.ended j = false ∧ M.held (x.procs j) ≠ ∅
  · obtain ⟨j, hj, hheld⟩ := hholder
    exact hgo hj fun r next hm => absurd (hsingle j r next hm) hheld
  · refine hgo hi fun r next _ j' hj' hmem => hholder ⟨j', hj', ?_⟩
    exact Set.nonempty_iff_ne_empty.1 ⟨r, hmem⟩

/-- What the moves of a process keep holds of it when it is alone. -/
theorem alone_each {Q : L → Prop} (hlock : ∀ {l r next}, M.move l = .lock r next → Q l → Q next)
    (hact : ∀ {l f}, M.move l = .act f → ∀ e, Q l → Q (f e).2) {x : (κ → V) × L} (hx : Q x.2) :
    ∀ n, Q (M.alone^[n] x).2
  | 0 => hx
  | n + 1 => by
    have h := alone_each hlock hact hx n
    rw [Function.iterate_succ_apply', Machine.alone]
    split
    · next hm => exact hlock hm h
    · next hm => exact hact hm _ h
    · exact h

/-- A process makes its moves one after the other if no other one has a lock, and
it does not wait for itself. -/
theorem Machine.solo {ls : List (ι × Action)} {x : Shared ι κ V L} (hrun : (M.system start store₀).Run ls x) {i : ι}
    (hi : x.ended i = false) (hothers : ∀ j, j ≠ i → x.ended j = false → M.held (x.procs j) = ∅)
    (hself : ∀ m r next, M.move (M.alone^[m] (x.store, x.procs i)).2 = .lock r next →
      r ∉ M.held (M.alone^[m] (x.store, x.procs i)).2) (n : Nat) :
    ∃ ls', (∀ l ∈ ls', l.1 = i ∧ l.2 ≠ .done ∧ l.2 ≠ .kill) ∧ (M.system start store₀).Run (ls' ++ ls)
      { x with
        store := (M.alone^[n] (x.store, x.procs i)).1
        procs := Function.update x.procs i (M.alone^[n] (x.store, x.procs i)).2 } := by
  induction n with
  | zero =>
    refine ⟨[], by simp, ?_⟩
    simpa using hrun
  | succ n ih =>
    obtain ⟨ls', hls', hrun'⟩ := ih
    have hown := hself n
    rw [Function.iterate_succ_apply']
    generalize M.alone^[n] (x.store, x.procs i) = y at hrun' hown
    obtain ⟨e, l⟩ := y
    have hproc : Function.update x.procs i l i = l := Function.update_self ..
    cases hm : M.move l with
    | done =>
      refine ⟨ls', hls', ?_⟩
      simpa only [Machine.alone, hm] using hrun'
    | act f =>
      refine ⟨(i, .act) :: ls', ?_, hrun'.step ⟨hi, f, by simpa only [hproc] using hm, ?_⟩⟩
      · simpa using hls'
      · simp only [Machine.alone, hm, Function.update_idem]
    | lock r next =>
      refine ⟨(i, .lock) :: ls', ?_, hrun'.step ⟨hi, r, next, by simpa only [hproc] using hm, fun j hj => ?_, ?_⟩⟩
      · simpa using hls'
      · by_cases hji : j = i
        · simpa only [hji, hproc] using hown r next hm
        · simp only [Function.update_of_ne hji, hothers j hji hj]
          exact Set.notMem_empty r
      · simp only [Machine.alone, hm, Function.update_idem]

end

/-! ## States with an invariant -/

/-- Every move keeps the invariant. -/
structure Machine.Keeps (M : Machine κ ρ V L) (I : L → Prop) : Prop where
  lock : ∀ {l r l'}, M.move l = .lock r l' → I l → I l'
  act : ∀ {l f}, M.move l = .act f → I l → ∀ e, I (f e).2

/-- In the states that have the invariant, a move reads and writes only what is
under the locks that the process has. -/
structure Machine.Confined (M : Machine κ ρ V L) (guard : κ → ρ) (I : L → Prop) : Prop extends M.Keeps I where
  lock_held : ∀ {l r l'}, M.move l = .lock r l' → I l → M.held l' = insert r (M.held l)
  act_held : ∀ {l f}, M.move l = .act f → I l → ∀ e, M.held (f e).2 = M.held l
  act_out : ∀ {l f}, M.move l = .act f → I l → ∀ e k, guard k ∉ M.held l → (f e).1 k = e k
  act_in : ∀ {l f}, M.move l = .act f → I l → ∀ {e e'}, (∀ k, guard k ∈ M.held l → e k = e' k) →
    (f e).2 = (f e').2 ∧ ∀ k, guard k ∈ M.held l → (f e).1 k = (f e').1 k

/-- The machine on the states that have the invariant. -/
def Machine.within (M : Machine κ ρ V L) {I : L → Prop} (hM : M.Keeps I) : Machine κ ρ V {l // I l} where
  move l :=
    match h : M.move l.1 with
    | .lock r next => .lock r ⟨next, hM.lock h l.2⟩
    | .act f => .act fun e => ((f e).1, ⟨(f e).2, hM.act h l.2 e⟩)
    | .done => .done
  held l := M.held l.1

/-- The processes did what they do one after the other, in the order of their
ends. -/
structure Machine.InTurn [DecidableEq ι] (M : Machine κ ρ V L) (start : ι → L) (store₀ : κ → V) (ls : List (ι × Action))
    (x : Shared ι κ V L) : Prop where
  ended : ∀ i, x.ended i = true ↔ i ∈ (endings ls).map Prod.fst
  result : ∀ {front i n back}, endings ls = front ++ (i, n) :: back →
    x.procs i = (M.alone^[n] (M.serial start store₀ back, start i)).2
  quiet : (∀ i, x.ended i = false → M.held (x.procs i) = ∅) → x.store = M.serial start store₀ (endings ls)

section
variable {M : Machine κ ρ V L} {I : L → Prop} {hM : M.Keeps I} {l : {l // I l}}

theorem within_lock {r : ρ} {next : L} (h : M.move l.1 = .lock r next) :
    (M.within hM).move l = .lock r ⟨next, hM.lock h l.2⟩ := by
  simp only [Machine.within]
  split
  · next h' =>
    cases h.symm.trans h'
    rfl
  · next h' => cases h.symm.trans h'
  · next h' => cases h.symm.trans h'

theorem within_act {f : (κ → V) → (κ → V) × L} (h : M.move l.1 = .act f) :
    (M.within hM).move l = .act fun e => ((f e).1, ⟨(f e).2, hM.act h l.2 e⟩) := by
  simp only [Machine.within]
  split
  · next h' => cases h.symm.trans h'
  · next h' =>
    cases h.symm.trans h'
    rfl
  · next h' => cases h.symm.trans h'

theorem within_done (h : M.move l.1 = .done) : (M.within hM).move l = .done := by
  simp only [Machine.within]
  split
  · next h' => cases h.symm.trans h'
  · next h' => cases h.symm.trans h'
  · rfl

theorem act_within {f : (κ → V) → (κ → V) × {l // I l}} (h : (M.within hM).move l = .act f) :
    ∃ f', M.move l.1 = .act f' ∧ ∀ e, (f e).1 = (f' e).1 ∧ (f e).2.1 = (f' e).2 := by
  cases hm : M.move l.1 with
  | lock r next => cases (within_lock hm).symm.trans h
  | done => cases (within_done hm).symm.trans h
  | act f' =>
    cases (within_act hm).symm.trans h
    exact ⟨f', rfl, fun _ => ⟨rfl, rfl⟩⟩

/-- What a process does by itself does not depend on the invariant. -/
theorem within_alone (x : (κ → V) × {l // I l}) :
    (((M.within hM).alone x).1, ((M.within hM).alone x).2.1) = M.alone (x.1, x.2.1) := by
  obtain ⟨e, l⟩ := x
  simp only [Machine.alone]
  cases h : M.move l.1 with
  | lock r next => rw [within_lock h]
  | act f => rw [within_act h]
  | done => rw [within_done h]

variable (hM) in
theorem within_iterate (n : Nat) (x : (κ → V) × {l // I l}) :
    (((M.within hM).alone^[n] x).1, ((M.within hM).alone^[n] x).2.1) = M.alone^[n] (x.1, x.2.1) := by
  induction n with
  | zero => rfl
  | succ n ih => rw [Function.iterate_succ_apply', Function.iterate_succ_apply', within_alone, ih]

variable {start : ι → L} {store₀ : κ → V} (hstart : ∀ i, I (start i))

variable (hM) in
theorem within_serial : ∀ order : List (ι × Nat),
    (M.within hM).serial (fun i => ⟨start i, hstart i⟩) store₀ order = M.serial start store₀ order
  | [] => rfl
  | (i, n) :: order => by
    have hrun := within_iterate hM n (M.serial start store₀ order, ⟨start i, hstart i⟩)
    rw [Machine.serial, Machine.serial, within_serial order, ← hrun]

variable [DecidableEq ι]

variable (hM) in
/-- The system does the same on states that have the invariant. -/
theorem within_simulation : (M.system start store₀).Simulation
    ((M.within hM).system (fun i => ⟨start i, hstart i⟩) store₀)
    fun x y => x = ⟨y.store, fun i => (y.procs i).1, y.ended⟩ where
  init h := ⟨_, rfl, h⟩
  step := by
    rintro _ y ⟨i, a⟩ x' rfl ⟨hi, hstep⟩
    have hupdate (next : {l // I l}) : Function.update (fun i => (y.procs i).1) i next.1 =
        fun j => (Function.update y.procs i next j).1 := by
      funext j
      by_cases hj : j = i
      · rw [hj, Function.update_self, Function.update_self]
      · rw [Function.update_of_ne hj, Function.update_of_ne hj]
    cases a with
    | lock =>
      obtain ⟨r, next, hmove, hfree, rfl⟩ := hstep
      refine ⟨{ y with procs := _ }, ⟨hi, r, _, within_lock hmove, hfree, rfl⟩, ?_⟩
      rw [← hupdate]
    | act =>
      obtain ⟨f, hmove, rfl⟩ := hstep
      refine ⟨{ y with store := _, procs := _ }, ⟨hi, _, within_act hmove, rfl⟩, ?_⟩
      rw [← hupdate]
    | done =>
      obtain ⟨hmove, rfl⟩ := hstep
      exact ⟨{ y with ended := _ }, ⟨hi, within_done hmove, rfl⟩, rfl⟩
    | kill =>
      obtain rfl := hstep
      exact ⟨{ y with ended := _ }, ⟨hi, rfl⟩, rfl⟩

/-- It is a program there. -/
def Machine.Confined.program {guard : κ → ρ} (h : M.Confined guard I) : Program κ ρ V {l // I l} where
  toMachine := M.within h.toKeeps
  guard := guard
  lock_held := by
    intro l r l' hmove
    cases hm : M.move l.1 with
    | lock r' next =>
      cases (within_lock hm).symm.trans hmove
      exact h.lock_held hm l.2
    | act f => cases (within_act hm).symm.trans hmove
    | done => cases (within_done hm).symm.trans hmove
  act_held := by
    intro l f hmove e
    obtain ⟨f', hm, hf⟩ := act_within hmove
    have hheld := h.act_held hm l.2 e
    rwa [← (hf e).2] at hheld
  act_out := by
    intro l f hmove e k hk
    obtain ⟨f', hm, hf⟩ := act_within hmove
    rw [(hf e).1]
    exact h.act_out hm l.2 e k hk
  act_in := by
    intro l f hmove e e' hsame
    obtain ⟨f', hm, hf⟩ := act_within hmove
    obtain ⟨hnext, hin⟩ := h.act_in hm l.2 hsame
    rw [(hf e).1, (hf e').1]
    exact ⟨Subtype.ext ((hf e).2.trans (hnext.trans (hf e').2.symm)), hin⟩

/-- **Where an invariant confines the moves to the locks**, the machine's processes
take turns. -/
theorem Machine.Confined.inTurn {guard : κ → ρ} (h : M.Confined guard I) (hstart : ∀ i, I (start i))
    (hfree : ∀ i, M.held (start i) = ∅) {ls : List (ι × Action)} {x : Shared ι κ V L}
    (hrun : (M.system start store₀).Run ls x) : M.InTurn start store₀ ls x := by
  obtain ⟨y, hy, rfl⟩ := (within_simulation h.toKeeps hstart).run hrun
  have hserial := Program.serialised (P := h.program) hfree hy
  refine ⟨hserial.ended, fun {front i n back} hfront => ?_, fun hquiet => ?_⟩
  · have hiterate := within_iterate h.toKeeps n (M.serial start store₀ back, ⟨start i, hstart i⟩)
    rw [← hiterate, ← within_serial h.toKeeps hstart]
    exact congrArg Subtype.val (hserial.result hfront)
  · rw [← within_serial h.toKeeps hstart]
    exact hserial.quiet hquiet

end

end Lib
