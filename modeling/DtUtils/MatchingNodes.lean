/-
Looking for nodes by a table: `of_match_node`, the search functions over it and
their loops. `none` results are comparisons that go on behind a value.

In every tree that is made and unmade node by node, the loops go over exactly
the nodes that some entry of the table matches, each with the first such entry,
unless a `compatible` property keeps them from telling (`matching_nodes`).
-/
import DtUtils.PropertyLoops
import DtUtils.TreeIteration

namespace DtUtils
open Lib

/-! ## The functions -/

/-- `struct of_device_id` -/
structure OfDeviceId where
  compatible : CString
  data : UInt64
  deriving DecidableEq

/-- `of_match_node` -/
def ofMatchNode (table : List OfDeviceId) (node : TreeNode) : Option (Option OfDeviceId) :=
  table.findM? fun id => ofDeviceIsCompatible node.device id.compatible

/-- An entry matches the node. -/
def nodeMatches (table : List OfDeviceId) (node : TreeNode) : Option Bool :=
  (ofMatchNode table node).map Option.isSome

/-- `of_find_matching_node_and_match`, with what `match` points to -/
def ofFindMatchingNodeAndMatch (t : NodeTree) (table : List OfDeviceId) (start : Option Nat) :
    Option (Option Nat × Option OfDeviceId) := do
  match ← findFrom t (nodeMatches table) start with
  | none => return (none, none)
  | some np => return (some np, ← ofMatchNode table (t.node np))

/-- `of_find_matching_node` -/
def ofFindMatchingNode (t : NodeTree) (table : List OfDeviceId) (start : Option Nat) : Option (Option Nat) :=
  (ofFindMatchingNodeAndMatch t table start).map Prod.fst

/-- `for_each_matching_node` -/
def forEachMatchingNode (t : NodeTree) (table : List OfDeviceId) : Option (List Nat) :=
  forEachFound (ofFindMatchingNode t table) t.live.length none

/-- `for_each_matching_node_and_match` -/
def forEachMatchingNodeAndMatch (t : NodeTree) (table : List OfDeviceId) : Option (List (Nat × Option OfDeviceId)) :=
  forEachValue (fun dn => (ofFindMatchingNodeAndMatch t table dn).map fun found =>
    found.1.map fun dn => (dn, dn, found.2)) t.live.length none

/-- The first entry that the node is compatible with. -/
def FirstMatch (table : List OfDeviceId) (node : TreeNode) (id : OfDeviceId) : Prop :=
  ∃ before after, table = before ++ id :: after ∧
    (∀ other ∈ before, ofDeviceIsCompatible node.device other.compatible = some false) ∧
    ofDeviceIsCompatible node.device id.compatible = some true

/-! ## What they find -/

theorem findM?_eq_some_iff {α : Type} {test : α → Option Bool} {x : α} : ∀ {xs : List α},
    xs.findM? test = some (some x) ↔
      ∃ before after, xs = before ++ x :: after ∧ (∀ y ∈ before, test y = some false) ∧ test x = some true
  | [] => by
    refine iff_of_false (fun h => ?_) fun h => ?_
    · cases h
    · obtain ⟨before, after, heq, -⟩ := h
      cases before <;> cases heq
  | y :: ys => by
    have ih := @findM?_eq_some_iff α test x ys
    rw [List.findM?]
    constructor
    · intro h
      cases hy : test y with
      | none =>
        rw [hy] at h
        cases h
      | some taken =>
        rw [hy] at h
        cases taken with
        | true =>
          cases h
          exact ⟨[], ys, rfl, by simp, hy⟩
        | false =>
          obtain ⟨before, after, heq, hbefore, hx⟩ := ih.1 h
          exact ⟨y :: before, after, by rw [heq, List.cons_append], List.forall_mem_cons.2 ⟨hy, hbefore⟩, hx⟩
    · intro h
      obtain ⟨before, after, heq, hbefore, hx⟩ := h
      cases before with
      | nil =>
        cases heq
        rw [hx]
        rfl
      | cons z before =>
        cases heq
        rw [List.forall_mem_cons] at hbefore
        rw [hbefore.1]
        exact findM?_eq_some_iff.2 ⟨before, after, rfl, hbefore.2, hx⟩

theorem ofMatchNode_eq_some_iff {table : List OfDeviceId} {node : TreeNode} {id : OfDeviceId} :
    ofMatchNode table node = some (some id) ↔ FirstMatch table node id := findM?_eq_some_iff

section
variable {t : NodeTree} {table : List OfDeviceId}

theorem nodeMatches_eq_true {node : TreeNode} (h : nodeMatches table node = some true) :
    ∃ id, ofMatchNode table node = some (some id) := by
  obtain ⟨found, hfound, hsome⟩ := Option.map_eq_some_iff.1 h
  obtain ⟨id, rfl⟩ := Option.isSome_iff_exists.1 hsome
  exact ⟨id, hfound⟩

theorem findFrom_matches {start : Option Nat} {np : Nat} (h : findFrom t (nodeMatches table) start = some (some np)) :
    ∃ id, ofMatchNode table (t.node np) = some (some id) := by
  simp only [findFrom, Option.bind_eq_bind, Option.bind_eq_some_iff] at h
  obtain ⟨_, -, nodes, -, hfind⟩ := h
  obtain ⟨-, -, -, -, htest⟩ := findM?_eq_some_iff.1 hfind
  exact nodeMatches_eq_true htest

theorem ofFindMatchingNodeAndMatch_eq (start : Option Nat) : ofFindMatchingNodeAndMatch t table start =
    (findFrom t (nodeMatches table) start).map fun found =>
      (found, found.bind fun np => (ofMatchNode table (t.node np)).join) := by
  rw [ofFindMatchingNodeAndMatch]
  cases hfound : findFrom t (nodeMatches table) start with
  | none => rfl
  | some found =>
    cases found with
    | none => rfl
    | some np =>
      obtain ⟨id, hid⟩ := findFrom_matches hfound
      simp [hid]

theorem ofFindMatchingNode_eq : ofFindMatchingNode t table = findFrom t (nodeMatches table) := by
  funext start
  rw [ofFindMatchingNode, ofFindMatchingNodeAndMatch_eq, Option.map_map]
  exact Option.map_id'

/-- A loop whose values come from the nodes that it finds. -/
theorem forEachValue_found {α : Type} {find : Option Nat → Option (Option Nat)}
    {next : Option Nat → Option (Option (Nat × α))} {f : Nat → α}
    (h : ∀ cur, next cur = (find cur).map (Option.map fun x => (x, f x))) :
    ∀ (fuel : Nat) (cur : Option Nat), forEachValue next fuel cur = (forEachFound find fuel cur).map (List.map f)
  | 0, _ => rfl
  | fuel + 1, cur => by
    rw [forEachValue, forEachFound, h]
    cases find cur with
    | none => rfl
    | some found =>
      cases found with
      | none => rfl
      | some x =>
        have ih := forEachValue_found h fuel (some x)
        simp only [Option.map_some, Option.bind_eq_bind, Option.bind_some, ih]
        cases forEachFound find fuel (some x) <;> rfl

theorem forEachMatchingNodeAndMatch_eq : forEachMatchingNodeAndMatch t table =
    (forEachMatchingNode t table).map (List.map fun x => (x, (ofMatchNode table (t.node x)).join)) := by
  rw [forEachMatchingNodeAndMatch, forEachMatchingNode]
  refine forEachValue_found (fun cur => ?_) _ _
  rw [ofFindMatchingNodeAndMatch_eq, ofFindMatchingNode_eq, Option.map_map]
  cases findFrom t (nodeMatches table) cur with
  | none => rfl
  | some found => cases found <;> rfl

end

/-- **The loops over the nodes that match** go over the tree in its order and
find exactly the nodes that an entry matches, each with the first such entry.
They fail exactly if a comparison with some node goes on behind its
`compatible` property. -/
theorem matching_nodes {root : Nat} {ops : List TreeOp} {t : NodeTree} (h : (treeSystem root).Run ops t)
    (table : List OfDeviceId) : ∃ order, t.WellFormed root order ∧
      forEachMatchingNode t table = (forEachMatchingNodeAndMatch t table).map (List.map Prod.fst) ∧
      (forEachMatchingNodeAndMatch t table = none ↔ ∃ x ∈ order, ofMatchNode table (t.node x) = none) ∧
      ∀ found, forEachMatchingNodeAndMatch t table = some found → (found.map Prod.fst).Sublist order ∧
        ∀ x m, (x, m) ∈ found ↔ x ∈ order ∧ ∃ id, m = some id ∧ FirstMatch table (t.node x) id := by
  obtain ⟨order, hwf⟩ := (treeSystem_invariant root).run h
  have hloop : forEachMatchingNode t table =
      if ∀ x ∈ order, nodeMatches table (t.node x) ≠ none then
        some (order.filter fun x => nodeMatches table (t.node x) = some true)
      else none := by
    rw [forEachMatchingNode, ofFindMatchingNode_eq]
    exact hwf.forEachFound_eq _
  have hfst : forEachMatchingNode t table = (forEachMatchingNodeAndMatch t table).map (List.map Prod.fst) := by
    rw [forEachMatchingNodeAndMatch_eq, Option.map_map]
    cases forEachMatchingNode t table <;> simp [Function.comp_def]
  refine ⟨order, hwf, hfst, ?_, fun found hfound => ?_⟩
  · rw [forEachMatchingNodeAndMatch_eq, Option.map_eq_none_iff, hloop]
    simp [nodeMatches]
  · rw [forEachMatchingNodeAndMatch_eq, Option.map_eq_some_iff, hloop] at hfound
    obtain ⟨xs, hxs, rfl⟩ := hfound
    obtain ⟨-, heq⟩ := Option.ite_none_right_eq_some.1 hxs
    cases heq
    refine ⟨by simp [List.map_map, Function.comp_def], fun x m => ?_⟩
    rw [List.mem_map]
    constructor
    · intro h
      obtain ⟨y, hy, hpair⟩ := h
      cases hpair
      obtain ⟨hmem, htest⟩ := List.mem_filter.1 hy
      obtain ⟨id, hid⟩ := nodeMatches_eq_true (of_decide_eq_true htest)
      exact ⟨hmem, id, by rw [hid]; rfl, ofMatchNode_eq_some_iff.1 hid⟩
    · intro h
      obtain ⟨hmem, id, hm, hfirst⟩ := h
      have hid := ofMatchNode_eq_some_iff.2 hfirst
      refine ⟨x, List.mem_filter.2 ⟨hmem, by simp [nodeMatches, hid]⟩, ?_⟩
      rw [hm, hid]
      rfl

/-- The small tree with a `compatible` in its node `a`. -/
def compatibleTree : NodeTree :=
  smallTree.modify 1 fun n => { n with phandle := 0, properties := [⟨cstr "compatible", (cstr "b").1 ++ [0]⟩] }

theorem matching_nodes_compatibleTree :
    FirstMatch [⟨cstr "a", 1⟩, ⟨cstr "B", 2⟩, ⟨cstr "b", 3⟩] (compatibleTree.node 1) ⟨cstr "B", 2⟩ := by
  have hrun := smallTree_run.step (show (treeSystem 0).step smallTree
    (.setProperties 1 0 [⟨cstr "compatible", (cstr "b").1 ++ [0]⟩]) compatibleTree from
      ⟨show 1 ∈ smallTree.live by decide, rfl⟩)
  obtain ⟨order, -, -, -, hfound⟩ := matching_nodes hrun [⟨cstr "a", 1⟩, ⟨cstr "B", 2⟩, ⟨cstr "b", 3⟩]
  obtain ⟨-, hmem⟩ := hfound [(1, some ⟨cstr "B", 2⟩)] (by decide)
  obtain ⟨-, id, hid, hfirst⟩ := (hmem 1 (some ⟨cstr "B", 2⟩)).1 (List.mem_singleton_self _)
  cases hid
  exact hfirst

end DtUtils
