/-
Circular doubly linked lists in the manner of the kernel's `list.h`: the links
are in the entries, a list has no head of its own. A ring is Mathlib's `Cycle`,
so it can be looked at from any entry (`Links.Ring.rotate`); what insertion and
deletion do is said at the entry that they touch.
-/
import Mathlib.Data.List.Cycle

namespace Lib

/-- The links of all entries; `none` is a link that must not be followed. -/
structure Links (α : Type*) where
  next : α → Option α
  prev : α → Option α

namespace Links

variable {α : Type*}

/-- `b` stands behind `a`. -/
def Linked (L : Links α) (a b : α) : Prop := L.next a = some b ∧ L.prev b = some a

/-- These entries, each once, and the first again behind the last. -/
structure Ring (L : Links α) (xs : List α) : Prop where
  linked : Cycle.Chain L.Linked xs
  nodup : xs.Nodup

/-- What is reached from `x` in front of the first entry that `stop` takes;
`fuel` bounds the number of steps. -/
def walk (L : Links α) (stop : α → Bool) : Nat → α → Option (List α)
  | 0, _ => none
  | fuel + 1, x => do
    let y ← L.next x
    if stop y then return [] else (y :: ·) <$> L.walk stop fuel y

section
variable [DecidableEq α]

/-- `INIT_LIST_HEAD` -/
def init (L : Links α) (x : α) : Links α := ⟨Function.update L.next x (some x), Function.update L.prev x (some x)⟩

/-- `list_add`: a new entry behind `head`. -/
def add (L : Links α) (new head : α) : Links α :=
  match L.next head with
  | none => L
  | some next =>
    ⟨Function.update (Function.update L.next new (some next)) head (some new),
      Function.update (Function.update L.prev next (some new)) new (some head)⟩

/-- A list with `new` behind `head`. -/
def insertAfter (head new : α) (xs : List α) : List α := xs.flatMap fun x => if x = head then [x, new] else [x]

/-- `list_del`, which poisons the links of the entry. -/
def del (L : Links α) (entry : α) : Links α :=
  match L.next entry, L.prev entry with
  | some next, some prev =>
    ⟨Function.update (Function.update L.next prev (some next)) entry none,
      Function.update (Function.update L.prev next (some prev)) entry none⟩
  | _, _ => L

end

variable {L : Links α} {x : α} {xs ys : List α}

/-! ## Rings -/

theorem Ring.rotate (h : L.Ring (xs ++ ys)) : L.Ring (ys ++ xs) := by
  have hrot : (xs ++ ys : List α) ~r (ys ++ xs) := List.isRotated_append
  refine ⟨?_, hrot.nodup_iff.1 h.nodup⟩
  rw [← Cycle.coe_eq_coe.2 hrot]
  exact h.linked

theorem Ring.next {y : α} (h : L.Ring (xs ++ x :: y :: ys)) : L.next x = some y := by
  have h' := (Ring.rotate h).linked
  simp only [List.cons_append, Cycle.chain_coe_cons, List.isChain_cons_cons] at h'
  exact h'.1.1

theorem Ring.next_last (h : L.Ring (x :: xs)) {last : α} {init : List α} (hlast : x :: xs = init ++ [last]) :
    L.next last = some x := by
  cases init with
  | nil =>
    obtain ⟨rfl, rfl⟩ := List.cons.inj hlast
    exact ((Cycle.chain_singleton _ _).1 h.linked).1
  | cons y init =>
    rw [hlast] at h
    obtain ⟨rfl, -⟩ := List.cons.inj hlast
    have hrot : L.Ring ([] ++ last :: x :: init) := h.rotate
    exact hrot.next

/-- A walk that starts in the ring goes once around to the entry where it is
to stop. -/
theorem Ring.walk {stop : α → Bool} {root : α} (hroot : stop root = true) :
    ∀ {fuel : Nat} {before : List α} {x : α} {after : List α}, root :: xs = before ++ x :: after →
      L.Ring (root :: xs) → (∀ y ∈ xs, stop y = false) → after.length < fuel → L.walk stop fuel x = some after
  | 0, _, _, _, _, _, _, hfuel => absurd hfuel (Nat.not_lt_zero _)
  | fuel + 1, before, x, [], heq, h, _, _ => by
    rw [Links.walk, h.next_last heq]
    simp [hroot]
  | fuel + 1, before, x, y :: after, heq, h, hrest, hfuel => by
    have hsplit : L.Ring (before ++ x :: y :: after) := heq ▸ h
    have hnext : L.next x = some y := hsplit.next
    have hy : stop y = false := by
      refine hrest y ?_
      cases before with
      | nil =>
        rw [(List.cons.inj heq).2]
        exact List.mem_cons_self
      | cons z before =>
        rw [(List.cons.inj heq).2]
        simp
    have heq' : root :: xs = (before ++ [x]) ++ y :: after := by rw [heq, List.append_assoc, List.singleton_append]
    rw [Links.walk, hnext]
    simp only [Option.bind_eq_bind, Option.bind_some, hy, Bool.false_eq_true, if_false,
      Ring.walk hroot heq' h hrest (Nat.lt_of_succ_lt_succ hfuel)]
    rfl

/-! ## Insertion and deletion -/

/-- The entries after the first one, up to where the ring closes. -/
theorem Ring.cons {head : α} {rest : List α} (h : L.Ring (head :: rest)) :
    ∃ next tail, rest ++ [head] = next :: tail ∧ L.Linked head next ∧ List.IsChain L.Linked (rest ++ [head]) ∧
      next ∉ tail ∧ head ∉ rest := by
  obtain ⟨hlinked, hnodup⟩ := h
  rw [List.nodup_cons] at hnodup
  rw [Cycle.chain_coe_cons] at hlinked
  obtain ⟨next, tail, hnext⟩ : ∃ next tail, rest ++ [head] = next :: tail := by
    cases rest with
    | nil => exact ⟨_, _, rfl⟩
    | cons y ys => exact ⟨_, _, rfl⟩
  have hback : (next :: tail).Nodup := by
    rw [← hnext, List.nodup_append_comm, List.singleton_append, List.nodup_cons]
    exact hnodup
  rw [hnext, List.isChain_cons_cons, ← hnext] at hlinked
  exact ⟨next, tail, hnext, hlinked.1, hlinked.2, (List.nodup_cons.1 hback).1, hnodup.1⟩

theorem isChain_linked_mono {M : Links α} : ∀ {l : List α}, List.IsChain L.Linked l →
    (∀ a ∈ l.dropLast, M.next a = L.next a) → (∀ b ∈ l.tail, M.prev b = L.prev b) → List.IsChain M.Linked l
  | [], _, _, _ => .nil
  | [a], _, _, _ => .singleton a
  | a :: b :: l, h, hnext, hprev => by
    rw [List.isChain_cons_cons] at h ⊢
    obtain ⟨⟨hab, hba⟩, hrest⟩ := h
    rw [List.dropLast_cons_cons] at hnext
    refine ⟨⟨(hnext a List.mem_cons_self).trans hab, (hprev b List.mem_cons_self).trans hba⟩,
      isChain_linked_mono hrest (fun x hx => hnext x (List.mem_cons_of_mem _ hx)) fun x hx =>
        hprev x (List.mem_cons_of_mem _ hx)⟩

section
variable [DecidableEq α]

theorem ring_init (L : Links α) (x : α) : (L.init x).Ring [x] :=
  ⟨(Cycle.chain_singleton _ _).2 ⟨Function.update_self .., Function.update_self ..⟩, List.nodup_singleton x⟩

theorem Ring.add_head {new head : α} {rest : List α} (h : L.Ring (head :: rest)) (hnew : new ∉ head :: rest) :
    (L.add new head).Ring (head :: new :: rest) := by
  have hnodup := h.nodup
  obtain ⟨next, tail, hnext, ⟨hh, hp⟩, hchain, hnotail, hhead⟩ := h.cons
  have hout : ∀ x ∈ rest ++ [head], x ≠ new := by
    intro x hx hxnew
    subst hxnew
    simp only [List.mem_append, List.mem_cons, List.not_mem_nil, or_false] at hx
    exact hnew (List.mem_cons.2 hx.symm)
  have hnextnew : next ≠ new := hout next (hnext ▸ List.mem_cons_self)
  have hheadnew : head ≠ new := hout head (by simp)
  have hadd : L.add new head = ⟨Function.update (Function.update L.next new (some next)) head (some new),
      Function.update (Function.update L.prev next (some new)) new (some head)⟩ := by rw [Links.add, hh]
  rw [hadd]
  refine ⟨?_, List.nodup_cons.2 ⟨by simp [hheadnew, hhead], List.nodup_cons.2 ⟨fun hx => hnew (by simp [hx]), ?_⟩⟩⟩
  · rw [Cycle.chain_coe_cons, List.cons_append, hnext, List.isChain_cons_cons, List.isChain_cons_cons, ← hnext]
    refine ⟨⟨Function.update_self .., Function.update_self ..⟩, ⟨?_, ?_⟩, isChain_linked_mono hchain ?_ ?_⟩
    · exact (Function.update_of_ne hheadnew.symm ..).trans (Function.update_self ..)
    · exact (Function.update_of_ne hnextnew ..).trans (Function.update_self ..)
    · intro a ha
      rw [List.dropLast_concat] at ha
      exact (Function.update_of_ne (ne_of_mem_of_not_mem ha hhead) ..).trans
        (Function.update_of_ne (hout a (List.mem_append_left _ ha)) ..)
    · intro b hb
      rw [hnext, List.tail_cons] at hb
      exact (Function.update_of_ne (hout b (hnext ▸ List.mem_cons_of_mem _ hb)) ..).trans
        (Function.update_of_ne (ne_of_mem_of_not_mem hb hnotail) ..)
  · exact (List.nodup_cons.1 hnodup).2

theorem Ring.del_head {entry : α} (h : L.Ring (entry :: xs)) (hxs : xs ≠ []) : (L.del entry).Ring xs := by
  obtain ⟨next, xs', rfl⟩ := List.exists_cons_of_ne_nil hxs
  have hnodup := (List.nodup_cons.1 h.nodup).2
  obtain ⟨next', tail, hnext, ⟨hh, hp⟩, hchain, -, hentry⟩ := h.cons
  obtain ⟨rfl, -⟩ := List.cons.inj hnext
  -- The entry in front of it is the last one of the ring.
  obtain ⟨init, prev, hlast⟩ : ∃ init prev, next :: xs' = init ++ [prev] :=
    ⟨_, _, (List.dropLast_append_getLast (List.cons_ne_nil next xs')).symm⟩
  have hchain' := List.isChain_append.1 hchain
  obtain ⟨hxs', -, hprev⟩ := hchain'
  have hback : L.Linked prev entry := hprev prev (by simp [hlast]) entry rfl
  have hdel : L.del entry = ⟨Function.update (Function.update L.next prev (some next)) entry none,
      Function.update (Function.update L.prev next (some prev)) entry none⟩ := by rw [Links.del, hh, hback.2]
  have hne : ∀ x ∈ next :: xs', x ≠ entry := fun x hx => ne_of_mem_of_not_mem hx hentry
  rw [hdel]
  refine ⟨?_, hnodup⟩
  rw [Cycle.chain_coe_cons, ← List.cons_append, List.isChain_append]
  refine ⟨isChain_linked_mono hxs' ?_ ?_, .singleton next, ?_⟩
  · intro a ha
    rw [hlast, List.dropLast_concat] at ha
    rw [hlast, List.nodup_append] at hnodup
    have hane : a ≠ prev := hnodup.2.2 a ha prev (List.mem_singleton_self prev)
    exact (Function.update_of_ne (hne a (hlast ▸ List.mem_append_left _ ha)) ..).trans
      (Function.update_of_ne hane ..)
  · intro b hb
    rw [List.tail_cons] at hb
    have hbne : b ≠ next := ne_of_mem_of_not_mem hb (List.nodup_cons.1 hnodup).1
    exact (Function.update_of_ne (hne b (List.mem_cons_of_mem _ hb)) ..).trans (Function.update_of_ne hbne ..)
  · intro x hx y hy
    obtain rfl : x = prev := by simpa [hlast] using hx.symm
    obtain rfl : y = next := by simpa using hy.symm
    exact ⟨(Function.update_of_ne (hne x (hlast ▸ by simp)) ..).trans (Function.update_self ..),
      (Function.update_of_ne (hne y List.mem_cons_self) ..).trans (Function.update_self ..)⟩

section
variable {head new : α}

@[simp] theorem insertAfter_nil : insertAfter head new [] = [] := rfl

@[simp] theorem insertAfter_append :
    insertAfter head new (xs ++ ys) = insertAfter head new xs ++ insertAfter head new ys :=
  List.flatMap_append ..

theorem insertAfter_cons_self : insertAfter head new (head :: xs) = head :: new :: insertAfter head new xs := by
  simp [insertAfter]

theorem insertAfter_cons_of_ne (h : x ≠ head) : insertAfter head new (x :: xs) = x :: insertAfter head new xs := by
  simp [insertAfter, h]

theorem insertAfter_of_not_mem (h : head ∉ xs) : insertAfter head new xs = xs := by
  induction xs with
  | nil => rfl
  | cons y ys ih =>
    rw [List.mem_cons, not_or] at h
    rw [insertAfter_cons_of_ne (Ne.symm h.1), ih h.2]

theorem mem_insertAfter {y : α} : y ∈ insertAfter head new xs ↔ y ∈ xs ∨ head ∈ xs ∧ y = new := by
  induction xs with
  | nil => simp
  | cons z zs ih =>
    by_cases hz : z = head
    · subst hz
      rw [insertAfter_cons_self]
      simp only [List.mem_cons, ih, true_or, true_and]
      tauto
    · rw [insertAfter_cons_of_ne hz]
      simp only [List.mem_cons, ih, Ne.symm hz, false_or]
      tauto

/-- A new entry behind any. -/
theorem Ring.add (h : L.Ring xs) (hhead : head ∈ xs) (hnew : new ∉ xs) :
    (L.add new head).Ring (insertAfter head new xs) := by
  obtain ⟨before, after, rfl⟩ := List.append_of_mem hhead
  obtain ⟨-, hafter, hdisjoint⟩ := List.nodup_append.1 h.nodup
  have hbefore : head ∉ before := fun hb => hdisjoint head hb head List.mem_cons_self rfl
  have hring : L.Ring (head :: (after ++ before)) := h.rotate
  have hnew' : new ∉ head :: (after ++ before) := by
    simpa [or_comm, or_left_comm, or_assoc] using hnew
  rw [insertAfter_append, insertAfter_cons_self, insertAfter_of_not_mem hbefore,
    insertAfter_of_not_mem (List.nodup_cons.1 hafter).1]
  have hadded : (L.add new head).Ring ((head :: new :: after) ++ before) := hring.add_head hnew'
  exact hadded.rotate

/-- Any entry is taken out, as long as it is not the only one. -/
theorem Ring.del {entry other : α} (h : L.Ring xs) (hentry : entry ∈ xs) (hother : other ∈ xs) (hne : other ≠ entry) :
    (L.del entry).Ring (xs.filter (· != entry)) := by
  rw [← h.nodup.erase_eq_filter]
  obtain ⟨before, after, rfl⟩ := List.append_of_mem hentry
  have hbefore : entry ∉ before := fun hb =>
    (List.nodup_append.1 h.nodup).2.2 entry hb entry List.mem_cons_self rfl
  have hring : L.Ring (entry :: (after ++ before)) := h.rotate
  rw [List.erase_append_right _ hbefore, List.erase_cons_head]
  refine Ring.rotate (hring.del_head fun hnil => ?_)
  rw [List.append_eq_nil_iff] at hnil
  rw [hnil.1, hnil.2, List.nil_append, List.mem_singleton] at hother
  exact hne hother

end

end

end Links

end Lib
