/-
Iterating over the tree: making a node puts it right behind its parent in the
ring, deleting one takes out everything below it, so a node is always followed
by what is below it in one piece, and a loop over the ring meets every node
once (`iteration_complete`).
-/
import DtUtils.NodeTree
import DtUtils.Lib.Run

namespace DtUtils
open Lib Links

section
variable {t t' : NodeTree} {root : Nat} {order : List Nat}

/-! ## What is below a node -/

theorem NodeTree.below_congr (h : ∀ x, (t'.node x).parent = (t.node x).parent) {a x : Nat} :
    t'.Below a x ↔ t.Below a x := by
  simp only [NodeTree.Below, h]

/-- What is below a node is one of its children, or below one. -/
theorem NodeTree.below_iff {a x : Nat} :
    t.Below a x ↔ ∃ c, (t.node c).parent = some a ∧ (x = c ∨ t.Below c x) := by
  rw [NodeTree.Below, Relation.TransGen.tail'_iff]
  simp only [Relation.reflTransGen_iff_eq_or_transGen, NodeTree.Below]
  constructor
  · intro h
    obtain ⟨c, hxc, hc⟩ := h
    exact ⟨c, hc, hxc.imp Eq.symm id⟩
  · intro h
    obtain ⟨c, hc, hxc⟩ := h
    exact ⟨c, hxc.imp Eq.symm id, hc⟩

theorem NodeTree.WellFormed.mem_of_parent (h : t.WellFormed root order) {x p : Nat} (hx : x ∈ root :: order)
    (hp : (t.node x).parent = some p) : x ∈ order ∧ p ∈ root :: order := by
  rcases List.mem_cons.1 hx with rfl | hx
  · cases h.rootParent.symm.trans hp
  · obtain ⟨p', hp', heq⟩ := h.parent x hx
    rw [hp, Option.some.injEq] at heq
    exact ⟨hx, heq ▸ hp'⟩

/-- Both ends of a way up are in the tree if its beginning is. -/
theorem NodeTree.WellFormed.mem_of_below (h : t.WellFormed root order) {a x : Nat} (hx : x ∈ root :: order)
    (hbelow : t.Below a x) : x ∈ order ∧ a ∈ root :: order := by
  induction hbelow with
  | single hp => exact h.mem_of_parent hx hp
  | tail _ hp ih => exact ⟨ih.1, (h.mem_of_parent ih.2 hp).2⟩

theorem NodeTree.WellFormed.not_below_self (h : t.WellFormed root order) {a : Nat} (ha : a ∈ root :: order) :
    ¬ t.Below a a := by
  intro hbelow
  obtain ⟨before, run, after, heq, hrun⟩ := h.contiguous a ha
  have hmem : a ∈ run := (hrun a).2 ⟨(h.mem_of_below ha hbelow).1, hbelow⟩
  have hnodup := h.ring.nodup
  rw [heq, List.nodup_append, List.nodup_cons] at hnodup
  exact hnodup.2.1.1 (List.mem_append_left _ hmem)

/-! ## Making a node -/

theorem NodeTree.WellFormed.fresh (root : Nat) : (NodeTree.fresh root).WellFormed root [] where
  rootNode := rfl
  ring := ring_init _ root
  live _ := Iff.rfl
  liveNodup := List.nodup_singleton root
  rootParent := by simp [NodeTree.fresh, ofNewNode]
  rootPath := by simp [NodeTree.fresh, ofNewNode]
  parent _ hx := absurd hx List.not_mem_nil
  path _ hx := absurd hx List.not_mem_nil
  children p hp x := by
    rw [List.mem_singleton.1 hp]
    simp [NodeTree.fresh, ofNewNode]
  childrenNodup p hp := by
    rw [List.mem_singleton.1 hp]
    simp [NodeTree.fresh, ofNewNode]
  contiguous a ha := by
    obtain rfl := List.mem_singleton.1 ha
    exact ⟨[], [], [], rfl, by simp⟩

section
variable {p new : Nat} (name : CString)

theorem ofNewNode_node (x : Nat) :
    (ofNewNode t new (some p) name).node x =
      if x = new then ⟨name, (t.node p).fullName.append ((cstr "/").append name), 0, some p, [], []⟩
      else if x = p then { t.node p with children := (t.node p).children ++ [new] } else t.node x := by
  simp only [ofNewNode, NodeTree.modify, Function.update_apply]

theorem ofNewNode_parent_self : ((ofNewNode t new (some p) name).node new).parent = some p := by
  rw [ofNewNode_node, if_pos rfl]

theorem ofNewNode_other {x : Nat} (hx : x ≠ new) :
    ((ofNewNode t new (some p) name).node x).parent = (t.node x).parent ∧
      ((ofNewNode t new (some p) name).node x).name = (t.node x).name ∧
      ((ofNewNode t new (some p) name).node x).fullName = (t.node x).fullName := by
  rw [ofNewNode_node, if_neg hx]
  split
  · next h =>
    subst h
    exact ⟨rfl, rfl, rfl⟩
  · exact ⟨rfl, rfl, rfl⟩

end

/-- A new node is below its parent and what that is below, and nothing is
below the new node. -/
theorem NodeTree.WellFormed.below_newNode (h : t.WellFormed root order) {p new : Nat} (hp : p ∈ root :: order)
    (hnew : new ∉ root :: order) (name : CString) {a x : Nat} (hx : x ∈ new :: root :: order) :
    (ofNewNode t new (some p) name).Below a x ↔
      if x = new then a = p ∨ t.Below a p else t.Below a x := by
  -- A way up inside the old tree is the same in both.
  have hold : ∀ {x}, x ∈ root :: order → ((ofNewNode t new (some p) name).Below a x ↔ t.Below a x) := by
    intro x hx
    have hxnew : x ≠ new := ne_of_mem_of_not_mem hx hnew
    constructor
    · intro hbelow
      induction hbelow using Relation.TransGen.head_induction_on with
      | single hpar => exact .single (by rwa [(ofNewNode_other name hxnew).1] at hpar)
      | head hpar _ ih =>
        rw [(ofNewNode_other name hxnew).1] at hpar
        have hup := (h.mem_of_parent hx hpar).2
        exact .head hpar (ih hup (ne_of_mem_of_not_mem hup hnew))
    · intro hbelow
      induction hbelow using Relation.TransGen.head_induction_on with
      | single hpar => exact .single (by rwa [(ofNewNode_other name hxnew).1])
      | head hpar _ ih =>
        have hup := (h.mem_of_parent hx hpar).2
        exact .head (by rwa [(ofNewNode_other name hxnew).1]) (ih hup (ne_of_mem_of_not_mem hup hnew))
  rcases List.mem_cons.1 hx with rfl | hx
  · rw [if_pos rfl, ← hold hp, NodeTree.Below, Relation.TransGen.head'_iff]
    simp only [ofNewNode_parent_self, Option.some.injEq, exists_eq_left', Relation.reflTransGen_iff_eq_or_transGen,
      NodeTree.Below]
  · rw [if_neg (ne_of_mem_of_not_mem hx hnew)]
    exact hold hx

theorem cons_insertAfter_tail {head new : Nat} :
    root :: (insertAfter head new (root :: order)).tail = insertAfter head new (root :: order) := by
  by_cases h : root = head
  · rw [h, insertAfter_cons_self, List.tail_cons]
  · rw [insertAfter_cons_of_ne h, List.tail_cons]

section
variable {p new : Nat} (h : t.WellFormed root order) (hp : p ∈ root :: order) (hnew : new ∉ root :: order)

include hp in
theorem mem_insertAfter_iff {x : Nat} : x ∈ insertAfter p new (root :: order) ↔ x = new ∨ x ∈ root :: order := by
  rw [mem_insertAfter, or_comm]
  simp only [hp, true_and]

include h hp hnew

theorem NodeTree.WellFormed.mem_newNode {x : Nat} :
    x ∈ (insertAfter p new (root :: order)).tail ↔ x = new ∨ x ∈ order := by
  have hmem := @mem_insertAfter_iff root order p new hp x
  have hnodup := (h.ring.add hp hnew).nodup
  rw [← cons_insertAfter_tail] at hmem hnodup
  rw [List.nodup_cons] at hnodup
  have hrootnew : root ≠ new := ne_of_mem_of_not_mem List.mem_cons_self hnew
  have horder : root ∉ order := (List.nodup_cons.1 h.ring.nodup).1
  simp only [List.mem_cons] at hmem
  by_cases hx : x = root
  · subst hx
    exact iff_of_false hnodup.1 (by simp [hrootnew, horder])
  · simpa [hx] using hmem

/-- Nobody's parent is the new node. -/
theorem NodeTree.WellFormed.newNode_childless (name : CString) {x : Nat} (hx : x = new ∨ x ∈ order) :
    ((ofNewNode t new (some p) name).node x).parent ≠ some new := by
  intro hpar
  rcases hx with rfl | hx
  · rw [ofNewNode_parent_self, Option.some.injEq] at hpar
    exact hnew (hpar ▸ hp)
  · have hx' := List.mem_cons_of_mem root hx
    rw [(ofNewNode_other name (ne_of_mem_of_not_mem hx' hnew)).1] at hpar
    exact hnew (h.mem_of_parent hx' hpar).2

/-- The new node is the last child of its parent. -/
theorem NodeTree.WellFormed.newNode_children (name : CString) {q : Nat} (hq : q = new ∨ q ∈ root :: order) (x : Nat) :
    x ∈ ((ofNewNode t new (some p) name).node q).children ↔
      (x = new ∨ x ∈ order) ∧ ((ofNewNode t new (some p) name).node x).parent = some q := by
  rcases hq with rfl | hq
  · rw [ofNewNode_node, if_pos rfl]
    exact iff_of_false List.not_mem_nil fun hx => h.newNode_childless hp hnew name hx.1 hx.2
  · have hqnew : q ≠ new := ne_of_mem_of_not_mem hq hnew
    have hchild := h.children q hq x
    by_cases hx : x = new
    · subst hx
      have hxorder : x ∉ order := fun hx => hnew (List.mem_cons_of_mem _ hx)
      rw [ofNewNode_parent_self, ofNewNode_node, if_neg hqnew]
      by_cases hqp : q = p
      · subst hqp
        simp
      · rw [if_neg hqp, hchild]
        simp [hxorder, Ne.symm hqp]
    · rw [(ofNewNode_other name hx).1, ofNewNode_node, if_neg hqnew]
      by_cases hqp : q = p
      · subst hqp
        simp [hx, hchild]
      · rw [if_neg hqp, hchild]
        simp [hx]

theorem NodeTree.WellFormed.newNode_childrenNodup (name : CString) {q : Nat} (hq : q = new ∨ q ∈ root :: order) :
    ((ofNewNode t new (some p) name).node q).children.Nodup := by
  rcases hq with rfl | hq
  · rw [ofNewNode_node, if_pos rfl]
    exact List.nodup_nil
  · rw [ofNewNode_node, if_neg (ne_of_mem_of_not_mem hq hnew)]
    split
    · next hqp =>
      subst hqp
      have hnotchild : new ∉ (t.node q).children := fun hx =>
        hnew (List.mem_cons_of_mem _ ((h.children q hq new).1 hx).1)
      rw [List.nodup_append_comm, List.singleton_append, List.nodup_cons]
      exact ⟨hnotchild, h.childrenNodup q hq⟩
    · exact h.childrenNodup q hq

theorem NodeTree.WellFormed.newNode_bottom (name : CString) {x : Nat} (hx : x = new ∨ x ∈ order) :
    ¬ (ofNewNode t new (some p) name).Below new x := by
  intro hlow
  rcases hx with rfl | hx
  · rw [h.below_newNode hp hnew name List.mem_cons_self, if_pos rfl] at hlow
    rcases hlow with rfl | hlow
    · exact hnew hp
    · exact hnew (h.mem_of_below hp hlow).2
  · have hx' := List.mem_cons_of_mem root hx
    rw [h.below_newNode hp hnew name (List.mem_cons_of_mem _ hx'), if_neg (ne_of_mem_of_not_mem hx' hnew)] at hlow
    exact hnew (h.mem_of_below hx' hlow).2

/-- What is below a node that was there before: the new node comes to it if its
parent is the node, or is below it. -/
theorem NodeTree.WellFormed.newNode_run (name : CString) {a : Nat} {run : List Nat}
    (hrun : ∀ x, x ∈ run ↔ x ∈ order ∧ t.Below a x) (x : Nat) :
    (x = new ∨ x ∈ order) ∧ (ofNewNode t new (some p) name).Below a x ↔ x ∈ run ∨ (a = p ∨ p ∈ run) ∧ x = new := by
  have hprun : p ∈ run ↔ t.Below a p := by
    rw [hrun]
    exact and_iff_right_of_imp fun hlow => (h.mem_of_below hp hlow).1
  rw [hprun, hrun]
  by_cases hxnew : x = new
  · subst hxnew
    have hxorder : x ∉ order := fun hx => hnew (List.mem_cons_of_mem _ hx)
    rw [h.below_newNode hp hnew name List.mem_cons_self, if_pos rfl]
    simp [hxorder]
  · by_cases hxorder : x ∈ order
    · rw [h.below_newNode hp hnew name (by simp [hxorder]), if_neg hxnew]
      simp [hxnew, hxorder]
    · simp [hxnew, hxorder]

/-- What is below a node still follows it in one piece. -/
theorem NodeTree.WellFormed.newNode_contiguous (name : CString) {a : Nat} (ha : a = new ∨ a ∈ root :: order) :
    ∃ before run after, insertAfter p new (root :: order) = before ++ a :: (run ++ after) ∧
      ∀ x, x ∈ run ↔ (x = new ∨ x ∈ order) ∧ (ofNewNode t new (some p) name).Below a x := by
  rcases ha with rfl | ha
  · obtain ⟨before, after, heq⟩ := List.append_of_mem hp
    refine ⟨insertAfter p a before ++ [p], [], insertAfter p a after, ?_, fun x => ?_⟩
    · rw [heq, insertAfter_append, insertAfter_cons_self]
      simp
    · exact iff_of_false List.not_mem_nil fun hx => h.newNode_bottom hp hnew name hx.1 hx.2
  · obtain ⟨before, run, after, heq, hrun⟩ := h.contiguous a ha
    by_cases hap : a = p
    · subst hap
      refine ⟨insertAfter a new before, new :: insertAfter a new run, insertAfter a new after, ?_, fun x => ?_⟩
      · rw [heq, insertAfter_append, insertAfter_cons_self, insertAfter_append, List.cons_append]
      · rw [h.newNode_run hp hnew name hrun, List.mem_cons, mem_insertAfter]
        tauto
    · refine ⟨insertAfter p new before, insertAfter p new run, insertAfter p new after, ?_, fun x => ?_⟩
      · rw [heq, insertAfter_append, insertAfter_cons_of_ne hap, insertAfter_append]
      · rw [h.newNode_run hp hnew name hrun, mem_insertAfter]
        simp [hap]

/-- **`of_new_node` keeps the tree together**: the new node stands right behind
its parent. -/
theorem NodeTree.WellFormed.newNode (name : CString) :
    (ofNewNode t new (some p) name).WellFormed root (insertAfter p new (root :: order)).tail := by
  have hmem := @mem_insertAfter_iff root order p new hp
  have hother := fun {x} (hx : x ∈ root :: order) =>
    ofNewNode_other (t := t) (p := p) name (ne_of_mem_of_not_mem hx hnew)
  exact {
    rootNode := h.rootNode
    ring := by
      rw [cons_insertAfter_tail]
      exact h.ring.add hp hnew
    live := fun x => by
      rw [cons_insertAfter_tail, hmem, ← h.live]
      exact List.mem_cons
    liveNodup := List.nodup_cons.2 ⟨fun hlive => hnew ((h.live new).1 hlive), h.liveNodup⟩
    rootParent := by
      rw [(hother List.mem_cons_self).1]
      exact h.rootParent
    rootPath := by
      rw [(hother List.mem_cons_self).2.2]
      exact h.rootPath
    parent := fun x hx => by
      rw [cons_insertAfter_tail]
      rcases (h.mem_newNode hp hnew).1 hx with rfl | hx
      · exact ⟨p, hmem.2 (.inr hp), ofNewNode_parent_self name⟩
      · obtain ⟨q, hq, hpar⟩ := h.parent x hx
        exact ⟨q, hmem.2 (.inr hq), (hother (List.mem_cons_of_mem _ hx)).1.trans hpar⟩
    path := fun x hx q hq => by
      rcases (h.mem_newNode hp hnew).1 hx with rfl | hx
      · rw [ofNewNode_parent_self, Option.some.injEq] at hq
        subst hq
        rw [(hother hp).2.2, ofNewNode_node, if_pos rfl]
      · have hx' := List.mem_cons_of_mem root hx
        rw [(hother hx').1] at hq
        rw [(hother hx').2.1, (hother hx').2.2, (hother (h.mem_of_parent hx' hq).2).2.2]
        exact h.path x hx q hq
    children := fun q hq x => by
      rw [cons_insertAfter_tail, hmem] at hq
      rw [h.mem_newNode hp hnew]
      exact h.newNode_children hp hnew name hq x
    childrenNodup := fun q hq => by
      rw [cons_insertAfter_tail, hmem] at hq
      exact h.newNode_childrenNodup hp hnew name hq
    contiguous := fun a ha => by
      rw [cons_insertAfter_tail, hmem] at ha
      simp only [cons_insertAfter_tail, h.mem_newNode hp hnew]
      exact h.newNode_contiguous hp hnew name ha }

end

/-! ## The order -/

/-- A list without duplicates is split at an entry in one way only. -/
theorem split_unique {x : Nat} {before after before' after' : List Nat} (hnodup : (before ++ x :: after).Nodup)
    (h : before ++ x :: after = before' ++ x :: after') : before = before' ∧ after = after' := by
  rw [List.nodup_append, List.nodup_cons] at hnodup
  obtain ⟨-, ⟨hafter, -⟩, hdisjoint⟩ := hnodup
  have hbefore : x ∉ before := fun hb => hdisjoint x hb x List.mem_cons_self rfl
  obtain ⟨h₁, -, h₂⟩ := (List.append_cons_inj_of_notMem hbefore hafter).1 h
  exact ⟨h₁, h₂⟩

theorem NodeTree.WellFormed.parent_before (h : t.WellFormed root order) {before after : List Nat} {x p : Nat}
    (heq : root :: order = before ++ x :: after) (hpar : (t.node x).parent = some p) :
    ∃ before' run, before = before' ++ p :: run := by
  have hx : x ∈ root :: order := heq ▸ List.mem_append_right _ List.mem_cons_self
  obtain ⟨hx, hp⟩ := h.mem_of_parent hx hpar
  obtain ⟨before', run, after', heq', hrun⟩ := h.contiguous p hp
  obtain ⟨run₁, run₂, rfl⟩ := List.append_of_mem ((hrun x).2 ⟨hx, .single hpar⟩)
  have hsplit : before ++ x :: after = (before' ++ p :: run₁) ++ x :: (run₂ ++ after') := by
    rw [← heq, heq']
    simp
  obtain ⟨hbefore, -⟩ := split_unique (heq ▸ h.ring.nodup) hsplit
  exact ⟨before', run₁, hbefore⟩

/-- Whatever holds for the root and goes from a node to its children holds for
every node. -/
theorem NodeTree.WellFormed.induct (h : t.WellFormed root order) {P : Nat → Prop} (hroot : P root)
    (hchild : ∀ x ∈ order, ∀ p, p ∈ root :: order → (t.node x).parent = some p → P p → P x) :
    ∀ x ∈ root :: order, P x := by
  have key : ∀ (n : Nat) {before after : List Nat} {x : Nat}, before.length = n → root :: order = before ++ x :: after →
      P x := by
    intro n
    induction n using Nat.strong_induction_on with
    | _ n ih =>
      intro before after x hn heq
      have hx : x ∈ root :: order := by simp [heq]
      rcases List.mem_cons.1 hx with rfl | hx
      · exact hroot
      · obtain ⟨p, hp, hpar⟩ := h.parent x hx
        obtain ⟨before', run, rfl⟩ := h.parent_before heq hpar
        rw [List.append_assoc, List.cons_append] at heq
        refine hchild x hx p hp hpar (ih before'.length ?_ rfl heq)
        rw [← hn, List.length_append, List.length_cons]
        omega
  intro x hx
  obtain ⟨before, after, heq⟩ := List.append_of_mem hx
  exact key _ rfl heq

/-! ## Deleting nodes -/

section
variable {id p : Nat} (hp : (t.node id).parent = some p)
include hp

theorem unlink_node (x : Nat) : (t.unlink id).node x =
    if x = p then { t.node p with children := (t.node p).children.erase id } else t.node x := by
  simp only [NodeTree.unlink, hp, NodeTree.modify, Function.update_apply]

theorem unlink_other (x : Nat) : ((t.unlink id).node x).parent = (t.node x).parent ∧
    ((t.unlink id).node x).name = (t.node x).name ∧ ((t.unlink id).node x).fullName = (t.node x).fullName := by
  rw [unlink_node hp]
  split
  · next h =>
    subst h
    exact ⟨rfl, rfl, rfl⟩
  · exact ⟨rfl, rfl, rfl⟩

end

theorem mem_filter_bne {id x : Nat} {xs : List Nat} : x ∈ xs.filter (· != id) ↔ x ∈ xs ∧ x ≠ id := by
  rw [List.mem_filter, bne_iff_ne]

theorem NodeTree.WellFormed.unlink_children (h : t.WellFormed root order) {id p : Nat} (hp : (t.node id).parent = some p)
    {q : Nat} (hq : q ∈ root :: order) (x : Nat) : x ∈ ((t.unlink id).node q).children ↔
      (x ∈ order ∧ x ≠ id) ∧ ((t.unlink id).node x).parent = some q := by
  have hchild := h.children q hq x
  rw [(unlink_other hp x).1, unlink_node hp]
  by_cases hqp : q = p
  · subst hqp
    rw [if_pos rfl, (h.childrenNodup q hq).mem_erase_iff, hchild]
    tauto
  · rw [if_neg hqp, hchild]
    constructor
    · intro hx
      refine ⟨⟨hx.1, ?_⟩, hx.2⟩
      rintro rfl
      exact hqp (Option.some.inj (hx.2.symm.trans hp))
    · intro hx
      exact ⟨hx.1.1, hx.2⟩

/-- A node without children is taken out. -/
theorem NodeTree.WellFormed.unlink (h : t.WellFormed root order) {id : Nat} (hid : id ∈ order)
    (hleaf : ∀ x ∈ order, (t.node x).parent ≠ some id) :
    (t.unlink id).WellFormed root (order.filter (· != id)) := by
  obtain ⟨p, hpmem, hp⟩ := h.parent id hid
  have hother := unlink_other hp
  have hbelow := fun a x => NodeTree.below_congr (a := a) (x := x) fun x => (hother x).1
  have hroot : root ≠ id := by
    rintro rfl
    cases h.rootParent.symm.trans hp
  have hcons : root :: order.filter (· != id) = (root :: order).filter (· != id) := by
    rw [List.filter_cons, if_pos (by simpa using hroot)]
  exact {
    rootNode := by simp only [NodeTree.unlink, hp, NodeTree.modify, h.rootNode, Option.some.injEq, if_neg hroot]
    ring := by
      rw [hcons]
      simp only [NodeTree.unlink, hp, NodeTree.modify]
      exact h.ring.del (List.mem_cons_of_mem _ hid) List.mem_cons_self hroot
    live := fun x => by
      simp only [NodeTree.unlink, hp, NodeTree.modify]
      rw [h.liveNodup.mem_erase_iff, hcons, mem_filter_bne, h.live, and_comm]
    liveNodup := by
      simp only [NodeTree.unlink, hp, NodeTree.modify]
      exact h.liveNodup.erase id
    rootParent := by
      rw [(hother root).1]
      exact h.rootParent
    rootPath := by
      rw [(hother root).2.2]
      exact h.rootPath
    parent := fun x hx => by
      obtain ⟨hxorder, -⟩ := mem_filter_bne.1 hx
      obtain ⟨q, hq, hpar⟩ := h.parent x hxorder
      rw [hcons]
      refine ⟨q, mem_filter_bne.2 ⟨hq, ?_⟩, (hother x).1.trans hpar⟩
      -- What is left has its parent among what is left.
      rintro rfl
      exact hleaf x hxorder hpar
    path := fun x hx q hq => by
      rw [(hother x).1] at hq
      rw [(hother x).2.1, (hother x).2.2, (hother q).2.2]
      exact h.path x (mem_filter_bne.1 hx).1 q hq
    children := fun q hq x => by
      rw [hcons, mem_filter_bne] at hq
      rw [mem_filter_bne]
      exact h.unlink_children hp hq.1 x
    childrenNodup := fun q hq => by
      rw [hcons, mem_filter_bne] at hq
      rw [unlink_node hp]
      split
      · exact (h.childrenNodup p hpmem).erase id
      · exact h.childrenNodup q hq.1
    contiguous := fun a ha => by
      rw [hcons, mem_filter_bne] at ha
      obtain ⟨before, run, after, heq, hrun⟩ := h.contiguous a ha.1
      refine ⟨before.filter (· != id), run.filter (· != id), after.filter (· != id), ?_, fun x => ?_⟩
      · rw [hcons, heq, List.filter_append, List.filter_cons, if_pos (by simpa using ha.2), List.filter_append]
      · rw [mem_filter_bne, hrun, mem_filter_bne, hbelow]
        tauto }

/-- What is left of a tree when `keep` says which nodes stay. -/
structure Pruned (t t' : NodeTree) (root : Nat) (order : List Nat) (keep : Nat → Bool) : Prop where
  wellFormed : t'.WellFormed root (order.filter keep)
  parent : ∀ x, (t'.node x).parent = (t.node x).parent

/-- The children of a node, one after the other. -/
theorem NodeTree.WellFormed.deleteChildren (fuel : Nat) {id : Nat}
    (hdelete : ∀ {t : NodeTree} {order before after : List Nat} {c : Nat}, t.WellFormed root order →
      order = before ++ c :: after → after.length < fuel → ∃ t' keep, ofDeleteNode fuel t c = some t' ∧
        (∀ x ∈ order, keep x = true ↔ x ≠ c ∧ ¬ t.Below c x) ∧ Pruned t t' root order keep) :
    ∀ {cs : List Nat} {t : NodeTree} {order : List Nat}, t.WellFormed root order → cs.Nodup → id ∈ order →
      (∀ c ∈ cs, (t.node c).parent = some id ∧ ∃ before after, order = before ++ c :: after ∧ after.length < fuel) →
      ∃ t' keep, cs.foldlM (ofDeleteNode fuel) t = some t' ∧
        (∀ x ∈ order, keep x = true ↔ ∀ c ∈ cs, x ≠ c ∧ ¬ t.Below c x) ∧ Pruned t t' root order keep
  | [], t, order, h, _, _, _ => by
    refine ⟨t, fun _ => true, rfl, fun x _ => by simp, ?_, fun x => rfl⟩
    rwa [List.filter_eq_self.2 fun _ _ => rfl]
  | c :: cs, t, order, h, hnodup, hid, hcs => by
    obtain ⟨hc, before, after, horder, hfuel⟩ := hcs c List.mem_cons_self
    obtain ⟨t₁, keep₁, ht₁, hkeep₁, hpruned₁⟩ := hdelete h horder hfuel
    rw [List.nodup_cons] at hnodup
    have hcmem : c ∈ root :: order := by simp [horder]
    have hidmem := List.mem_cons_of_mem root hid
    have hbelow : ∀ {a x}, t₁.Below a x ↔ t.Below a x := NodeTree.below_congr hpruned₁.parent
    -- Neither the parent nor the other children are below the child.
    have hnot : ∀ x, (x = id ∨ (t.node x).parent = some id ∧ x ∈ root :: order) → ¬ t.Below c x := by
      intro x hx hlow
      have hcid : t.Below id c := .single hc
      rcases hx with rfl | ⟨hx, hxmem⟩
      · exact h.not_below_self hidmem (hlow.trans hcid)
      · obtain ⟨q, hq, hrest⟩ := Relation.TransGen.head'_iff.1 hlow
        cases hx.symm.trans hq
        rcases Relation.reflTransGen_iff_eq_or_transGen.1 hrest with rfl | hrest
        · exact h.not_below_self hidmem hcid
        · exact h.not_below_self hidmem (Relation.TransGen.trans hrest hcid)
    have hidkeep : keep₁ id = true := by
      refine (hkeep₁ id hid).2 ⟨?_, hnot id (.inl rfl)⟩
      rintro rfl
      exact h.not_below_self hidmem (.single hc)
    obtain ⟨t₂, keep₂, ht₂, hkeep₂, hpruned₂⟩ := deleteChildren fuel hdelete hpruned₁.wellFormed hnodup.2
      (List.mem_filter.2 ⟨hid, hidkeep⟩) (by
        intro c' hc'
        obtain ⟨hpar, before', after', horder', hfuel'⟩ := hcs c' (List.mem_cons_of_mem _ hc')
        have hkeep : keep₁ c' = true := by
          refine (hkeep₁ c' (by simp [horder'])).2 ⟨ne_of_mem_of_not_mem hc' hnodup.1, hnot c' (.inr ⟨hpar, ?_⟩)⟩
          simp [horder']
        refine ⟨(hpruned₁.parent c').trans hpar, before'.filter keep₁, after'.filter keep₁, ?_,
          lt_of_le_of_lt (List.length_filter_le ..) hfuel'⟩
        rw [horder', List.filter_append, List.filter_cons, if_pos hkeep])
    refine ⟨t₂, fun x => keep₁ x && keep₂ x, ?_, fun x hx => ?_, ?_, fun x => ?_⟩
    · rw [List.foldlM_cons, ht₁]
      exact ht₂
    · rw [Bool.and_eq_true, hkeep₁ x hx, List.forall_mem_cons]
      refine and_congr_right fun hx₁ => ?_
      have hxkeep : x ∈ order.filter keep₁ := List.mem_filter.2 ⟨hx, (hkeep₁ x hx).2 hx₁⟩
      simp only [hkeep₂ x hxkeep, hbelow]
    · have hfilter := hpruned₂.wellFormed
      rwa [List.filter_filter, List.filter_congr fun x _ => Bool.and_comm (keep₂ x) (keep₁ x)] at hfilter
    · exact (hpruned₂.parent x).trans (hpruned₁.parent x)

/-- **`of_delete_node` takes out a node and what is below it**, and keeps the
rest of the tree together. -/
theorem NodeTree.WellFormed.delete : ∀ {fuel : Nat} {t : NodeTree} {order before after : List Nat} {id : Nat},
    t.WellFormed root order → order = before ++ id :: after → after.length < fuel →
    ∃ t' keep, ofDeleteNode fuel t id = some t' ∧
      (∀ x ∈ order, keep x = true ↔ x ≠ id ∧ ¬ t.Below id x) ∧ Pruned t t' root order keep
  | 0, _, _, _, _, _, _, _, hfuel => absurd hfuel (Nat.not_lt_zero _)
  | fuel + 1, t, order, before, after, id, h, horder, hfuel => by
    have hid : id ∈ order := by simp [horder]
    have hidmem := List.mem_cons_of_mem root hid
    have hchild := h.children id hidmem
    -- The children stand behind the node, so less fuel is enough for them.
    obtain ⟨before', run, after', horder', hrun⟩ := h.contiguous id hidmem
    have hafter : after = run ++ after' := by
      have hnodup := h.ring.nodup
      rw [horder, ← List.cons_append] at horder' hnodup
      exact (split_unique hnodup horder').2
    obtain ⟨t₁, keep, ht₁, hkeep, hpruned⟩ := NodeTree.WellFormed.deleteChildren fuel
      (fun h => NodeTree.WellFormed.delete h) h (h.childrenNodup id hidmem) hid (by
        intro c hc
        obtain ⟨hcorder, hpar⟩ := (hchild c).1 hc
        have hcrun : c ∈ run := (hrun c).2 ⟨hcorder, .single hpar⟩
        obtain ⟨run₁, run₂, rfl⟩ := List.append_of_mem hcrun
        refine ⟨hpar, before ++ id :: run₁, run₂ ++ after', ?_, ?_⟩
        · rw [horder, hafter]
          simp
        · rw [hafter] at hfuel
          simp only [List.length_append, List.length_cons] at hfuel ⊢
          omega)
    have hbelow : ∀ {a x}, t₁.Below a x ↔ t.Below a x := NodeTree.below_congr hpruned.parent
    have hidkeep : keep id = true := by
      refine (hkeep id hid).2 fun c hc => ?_
      have hpar := ((hchild c).1 hc).2
      refine ⟨?_, fun hlow => h.not_below_self hidmem (hlow.trans (.single hpar))⟩
      rintro rfl
      exact h.not_below_self hidmem (.single hpar)
    have hleaf : ∀ x ∈ order.filter keep, (t₁.node x).parent ≠ some id := by
      intro x hx hpar
      rw [hpruned.parent] at hpar
      obtain ⟨hx, hxkeep⟩ := List.mem_filter.1 hx
      exact ((hkeep x hx).1 hxkeep x ((hchild x).2 ⟨hx, hpar⟩)).1 rfl
    have hid₁ : id ∈ order.filter keep := List.mem_filter.2 ⟨hid, hidkeep⟩
    obtain ⟨p, -, hp⟩ := hpruned.wellFormed.parent id hid₁
    refine ⟨t₁.unlink id, fun x => keep x && x != id, ?_, fun x hx => ?_, ?_, fun x => ?_⟩
    · rw [ofDeleteNode, ht₁]
      rfl
    · rw [Bool.and_eq_true, hkeep x hx, bne_iff_ne, and_comm]
      refine and_congr_right fun _ => ?_
      -- Whatever is below the node is below one of its children.
      rw [NodeTree.below_iff]
      constructor
      · intro hx₁ hx₂
        obtain ⟨c, hpar, hxc⟩ := hx₂
        have hcorder : c ∈ order := by
          rcases hxc with rfl | hxc
          · exact hx
          · exact (h.mem_of_parent (h.mem_of_below (List.mem_cons_of_mem _ hx) hxc).2 hpar).1
        have hc := hx₁ c ((hchild c).2 ⟨hcorder, hpar⟩)
        exact hxc.elim hc.1 hc.2
      · intro hx₁ c hc
        have hpar := ((hchild c).1 hc).2
        exact ⟨fun hxc => hx₁ ⟨c, hpar, .inl hxc⟩, fun hxc => hx₁ ⟨c, hpar, .inr hxc⟩⟩
    · have hunlink := hpruned.wellFormed.unlink hid₁ hleaf
      rwa [List.filter_filter, List.filter_congr fun x _ => Bool.and_comm (x != id) (keep x)] at hunlink
    · exact (unlink_other hp x).1.trans (hpruned.parent x)

/-! ## Going over the nodes -/

theorem treeNodesFrom_eq_walk (fuel x : Nat) :
    treeNodesFrom t fuel x = t.list.walk (fun x => (t.node x).parent.isNone) fuel x := by
  induction fuel generalizing x with
  | zero => rfl
  | succ fuel ih =>
    rw [treeNodesFrom, Links.walk, ofNextNode]
    cases hnext : t.list.next x with
    | none => rfl
    | some next =>
      cases hpar : (t.node next).parent with
      | none => simp [hpar]
      | some p => simp [hpar, ih]

theorem NodeTree.WellFormed.length_live (h : t.WellFormed root order) : t.live.length = order.length + 1 :=
  ((List.perm_ext_iff_of_nodup h.liveNodup h.ring.nodup).2 h.live).length_eq

/-- The loop from a node on goes over all nodes behind it. -/
theorem NodeTree.WellFormed.treeNodesFrom_eq (h : t.WellFormed root order) {before after : List Nat} {x : Nat}
    (heq : root :: order = before ++ x :: after) : treeNodesFrom t t.live.length x = some after := by
  rw [treeNodesFrom_eq_walk]
  have hlen := congrArg List.length heq
  simp only [List.length_cons, List.length_append] at hlen
  have hlive := h.length_live
  refine Ring.walk ?_ heq h.ring (fun y hy => ?_) (by omega)
  · rw [h.rootParent]
    rfl
  · obtain ⟨p, -, hp⟩ := h.parent y hy
    rw [hp]
    rfl

/-- From the root it goes over all the others. -/
theorem NodeTree.WellFormed.treeNodes (h : t.WellFormed root order) :
    treeNodesFrom t t.live.length root = some order :=
  @NodeTree.WellFormed.treeNodesFrom_eq t root order h [] order root rfl

theorem NodeTree.WellFormed.findFrom_eq (h : t.WellFormed root order) (test : TreeNode → Option Bool) :
    findFrom t test none = order.findM? (fun x => test (t.node x)) ∧
      ∀ {before after : List Nat} {x : Nat}, order = before ++ x :: after →
        findFrom t test (some x) = after.findM? fun x => test (t.node x) := by
  constructor
  · rw [findFrom, Option.none_or, h.rootNode]
    simp [h.treeNodes]
  · intro before after x heq
    have hsplit : root :: order = (root :: before) ++ x :: after := by rw [heq, List.cons_append]
    have hnodes := h.treeNodesFrom_eq hsplit
    rw [findFrom, Option.some_or]
    simp [hnodes]

end

/-- A search ends at a node that the test cannot judge, behind the last one, or
at the first that the test takes. -/
theorem findM?_cases (test : Nat → Option Bool) (xs : List Nat) :
    (xs.findM? test = none ∧ ∃ x ∈ xs, test x = none) ∨
    (xs.findM? test = some none ∧ ∀ x ∈ xs, test x = some false) ∨
    ∃ before x after, xs = before ++ x :: after ∧ (∀ y ∈ before, test y = some false) ∧ test x = some true ∧
      xs.findM? test = some (some x) := by
  induction xs with
  | nil => exact .inr (.inl ⟨rfl, by simp⟩)
  | cons x xs ih =>
    rw [List.findM?]
    cases htest : test x with
    | none => exact .inl ⟨rfl, x, List.mem_cons_self, htest⟩
    | some taken =>
      cases taken with
      | true => exact .inr (.inr ⟨[], x, xs, rfl, by simp, htest, rfl⟩)
      | false =>
        rcases ih with ⟨hfind, y, hy, hnone⟩ | ⟨hfind, hall⟩ | ⟨before, y, after, heq, hall, hy, hfind⟩
        · exact .inl ⟨hfind, y, List.mem_cons_of_mem _ hy, hnone⟩
        · exact .inr (.inl ⟨hfind, List.forall_mem_cons.2 ⟨htest, hall⟩⟩)
        · exact .inr (.inr ⟨x :: before, y, after, by rw [heq, List.cons_append],
            List.forall_mem_cons.2 ⟨htest, hall⟩, hy, hfind⟩)

/-- A `for_each` loop yields the nodes that the test takes, unless there is one
that it cannot judge. -/
theorem forEachFound_eq {find : Option Nat → Option (Option Nat)} {test : Nat → Option Bool} :
    ∀ {fuel : Nat} {start : Option Nat} {xs : List Nat}, find start = xs.findM? test →
      (∀ {before after : List Nat} {x : Nat}, xs = before ++ x :: after → find (some x) = after.findM? test) →
      xs.length < fuel →
      forEachFound find fuel start =
        if ∀ x ∈ xs, test x ≠ none then some (xs.filter fun x => test x = some true) else none
  | 0, _, _, _, _, hfuel => absurd hfuel (Nat.not_lt_zero _)
  | fuel + 1, start, xs, hstart, hfind, hfuel => by
    rw [forEachFound, hstart]
    rcases findM?_cases test xs with ⟨heq, x, hx, hnone⟩ | ⟨heq, hall⟩ | ⟨before, x, after, rfl, hbefore, hx, heq⟩
    · rw [heq, if_neg fun h => h x hx hnone]
      rfl
    · have hnot : xs.filter (fun x => test x = some true) = [] := by
        rw [List.filter_eq_nil_iff]
        intro x hx
        simp [hall x hx]
      rw [heq, if_pos fun x hx => by simp [hall x hx], hnot]
      rfl
    · have hrest : forEachFound find fuel (some x) =
          if ∀ x ∈ after, test x ≠ none then some (after.filter fun x => test x = some true) else none := by
        refine forEachFound_eq (hfind rfl) (fun {before' after' x'} h => ?_) ?_
        · have hsplit : before ++ x :: after = (before ++ x :: before') ++ x' :: after' := by
            rw [h, List.append_assoc, List.cons_append]
          exact hfind hsplit
        · rw [List.length_append, List.length_cons] at hfuel
          omega
      have hbefore' : before.filter (fun x => test x = some true) = [] := by
        rw [List.filter_eq_nil_iff]
        intro y hy
        simp [hbefore y hy]
      have hall : (∀ y ∈ before ++ x :: after, test y ≠ none) ↔ ∀ y ∈ after, test y ≠ none := by
        rw [List.forall_mem_append, List.forall_mem_cons]
        refine ⟨fun h => h.2.2, fun h => ⟨fun y hy => by simp [hbefore y hy], by simp [hx], h⟩⟩
      rw [List.filter_append, hbefore', List.nil_append, List.filter_cons_of_pos (by simpa using hx), heq]
      by_cases hafter : ∀ y ∈ after, test y ≠ none
      · rw [if_pos hafter] at hrest
        rw [if_pos (hall.2 hafter)]
        simp only [Option.bind_eq_bind, Option.bind_some, hrest, Option.map_eq_map, Option.map_some]
      · rw [if_neg hafter] at hrest
        rw [if_neg (hall.not.2 hafter)]
        simp only [Option.bind_eq_bind, Option.bind_some, hrest, Option.map_eq_map, Option.map_none]

/-! ## Runs -/

/-- What is done to a tree. -/
inductive TreeOp
  | newNode (parent new : Nat) (name : CString)
  | deleteNode (id : Nat)
  | setProperties (id : Nat) (phandle : UInt32) (properties : List Property)

def TreeOp.apply (t : NodeTree) : TreeOp → Option NodeTree
  | .newNode parent new name => some (ofNewNode t new (some parent) name)
  | .deleteNode id => ofDeleteNode t.live.length t id
  | .setProperties id phandle properties =>
    some (t.modify id fun n => { n with phandle := phandle, properties := properties })

/-- Nodes in use are passed, a new one gets an address that is not in use, and
the root is not deleted. -/
def TreeOp.Allowed (t : NodeTree) : TreeOp → Prop
  | .newNode parent new _ => parent ∈ t.live ∧ new ∉ t.live
  | .deleteNode id => id ∈ t.live ∧ t.rootNode ≠ some id
  | .setProperties id _ _ => id ∈ t.live

/-- Trees built from a fresh root. -/
def treeSystem (root : Nat) : System NodeTree TreeOp where
  init t := t = .fresh root
  step t op t' := op.Allowed t ∧ op.apply t = some t'

section
variable {t : NodeTree} {root : Nat} {order : List Nat}

theorem modify_node {id : Nat} (f : TreeNode → TreeNode) (x : Nat) :
    (t.modify id f).node x = if x = id then f (t.node id) else t.node x := by
  simp only [NodeTree.modify, Function.update_apply]

/-- What a node is named and where it hangs is all that matters. -/
theorem NodeTree.WellFormed.modify (h : t.WellFormed root order) (id : Nat) {f : TreeNode → TreeNode}
    (hname : ∀ n, (f n).name = n.name) (hpath : ∀ n, (f n).fullName = n.fullName)
    (hparent : ∀ n, (f n).parent = n.parent) (hchildren : ∀ n, (f n).children = n.children) :
    (t.modify id f).WellFormed root order := by
  have hnode : ∀ x, ((t.modify id f).node x).name = (t.node x).name ∧
      ((t.modify id f).node x).fullName = (t.node x).fullName ∧
      ((t.modify id f).node x).parent = (t.node x).parent ∧
      ((t.modify id f).node x).children = (t.node x).children := by
    intro x
    rw [modify_node]
    split
    · next hx => exact hx ▸ ⟨hname _, hpath _, hparent _, hchildren _⟩
    · exact ⟨rfl, rfl, rfl, rfl⟩
  have hbelow := fun a x => NodeTree.below_congr (a := a) (x := x) fun x => (hnode x).2.2.1
  constructor
  · exact h.rootNode
  · exact h.ring
  · exact h.live
  · exact h.liveNodup
  · rw [(hnode root).2.2.1]
    exact h.rootParent
  · rw [(hnode root).2.1]
    exact h.rootPath
  · intro x hx
    rw [(hnode x).2.2.1]
    exact h.parent x hx
  · intro x hx p hp
    rw [(hnode x).2.2.1] at hp
    rw [(hnode x).1, (hnode x).2.1, (hnode p).2.1]
    exact h.path x hx p hp
  · intro p hp x
    rw [(hnode p).2.2.2, (hnode x).2.2.1]
    exact h.children p hp x
  · intro p hp
    rw [(hnode p).2.2.2]
    exact h.childrenNodup p hp
  · intro a ha
    simp only [hbelow]
    exact h.contiguous a ha

/-- An allowed step does not fail, and keeps the tree together. -/
theorem NodeTree.WellFormed.step (h : t.WellFormed root order) {op : TreeOp} (hop : op.Allowed t) :
    ∃ t' order', op.apply t = some t' ∧ t'.WellFormed root order' := by
  cases op with
  | newNode parent new name =>
    exact ⟨_, _, rfl, h.newNode ((h.live parent).1 hop.1) (fun hnew => hop.2 ((h.live new).2 hnew)) name⟩
  | deleteNode id =>
    have hid : id ∈ order := by
      rcases List.mem_cons.1 ((h.live id).1 hop.1) with rfl | hid
      · exact absurd h.rootNode hop.2
      · exact hid
    obtain ⟨before, after, heq⟩ := List.append_of_mem hid
    have hlen := congrArg List.length heq
    rw [List.length_append, List.length_cons] at hlen
    have hlive := h.length_live
    have hfuel : after.length < t.live.length := by omega
    obtain ⟨t', keep, ht', -, hpruned⟩ := h.delete heq hfuel
    exact ⟨t', _, ht', hpruned.wellFormed⟩
  | setProperties id phandle properties =>
    exact ⟨_, _, rfl, h.modify id (fun _ => rfl) (fun _ => rfl) (fun _ => rfl) fun _ => rfl⟩

theorem treeSystem_invariant (root : Nat) :
    (treeSystem root).Invariant fun _ t => ∃ order, t.WellFormed root order where
  init h := ⟨[], h ▸ .fresh root⟩
  step h hstep := by
    obtain ⟨order, h⟩ := h
    obtain ⟨t', order', ht', hwf⟩ := h.step hstep.1
    cases ht'.symm.trans hstep.2
    exact ⟨order', hwf⟩

theorem NodeTree.WellFormed.forEachFound_eq (h : t.WellFormed root order) (test : TreeNode → Option Bool) :
    forEachFound (findFrom t test) t.live.length none =
      if ∀ x ∈ order, test (t.node x) ≠ none then some (order.filter fun x => test (t.node x) = some true)
      else none := by
  obtain ⟨hstart, hfind⟩ := h.findFrom_eq test
  exact DtUtils.forEachFound_eq hstart hfind (by rw [h.length_live]; exact Nat.lt_succ_self _)

end

/-- **Iteration is complete**: after any nodes were made and deleted the ring
goes through the root and every other node once, what is below a node follows
it in one piece, and a loop over the tree meets each node but the root once. So
do the loops over the nodes that match; one that looks for a compatible node
fails if a `compatible` property does not end inside its value. -/
theorem iteration_complete {root : Nat} {ops : List TreeOp} {t : NodeTree} (h : (treeSystem root).Run ops t) :
    (∀ op : TreeOp, op.Allowed t → ∃ t', op.apply t = some t') ∧
    ∃ order, t.WellFormed root order ∧ treeNodesFrom t t.live.length root = some order ∧
      (∀ name, forEachNodeByName t name = some (order.filter fun x => sameButCase (t.node x).name name)) ∧
      (∀ name, forEachNodeWithProperty t name =
        some (order.filter fun x => (ofFindProperty (t.node x).device name).isSome)) ∧
      ∀ compatible, forEachCompatibleNode t compatible =
        if ∀ x ∈ order, ofDeviceIsCompatible (t.node x).device compatible ≠ none then
          some (order.filter fun x => ofDeviceIsCompatible (t.node x).device compatible = some true)
        else none := by
  obtain ⟨order, hwf⟩ := (treeSystem_invariant root).run h
  refine ⟨fun op hop => ?_, order, hwf, hwf.treeNodes, fun name => ?_, fun name => ?_,
    fun compatible => ?_⟩
  · obtain ⟨t', -, ht', -⟩ := hwf.step hop
    exact ⟨t', ht'⟩
  · rw [forEachNodeByName, ofFindNodeByName, hwf.forEachFound_eq, if_pos (by simp)]
    simp
  · rw [forEachNodeWithProperty, ofFindNodeWithProperty, hwf.forEachFound_eq, if_pos (by simp)]
    simp
  · exact hwf.forEachFound_eq _

/-- A root with the nodes `a` and `b`, and `c` below `a`. -/
def smallTree : NodeTree :=
  ofNewNode (ofNewNode (ofNewNode (.fresh 0) 1 (some 0) (cstr "a")) 2 (some 0) (cstr "b")) 3 (some 1) (cstr "c")

theorem smallTree_run : (treeSystem 0).Run
    [.newNode 1 3 (cstr "c"), .newNode 0 2 (cstr "b"), .newNode 0 1 (cstr "a")] smallTree :=
  .step (.step (.step (.init rfl) ⟨⟨by decide, by decide⟩, rfl⟩) ⟨⟨by decide, by decide⟩, rfl⟩)
    ⟨⟨by decide, by decide⟩, rfl⟩

theorem iteration_complete_smallTree :
    ∃ order, smallTree.WellFormed 0 order ∧ treeNodesFrom smallTree smallTree.live.length 0 = some order := by
  obtain ⟨-, order, hwf, hnodes, -⟩ := iteration_complete smallTree_run
  exact ⟨order, hwf, hnodes⟩

example : treeNodesFrom smallTree 4 0 = some [2, 1, 3] := by decide
example : (ofDeleteNode 4 smallTree 1).bind (treeNodesFrom · 2 0) = some [2] := by decide

end DtUtils
