/-
The device tree in memory: nodes known by their addresses, linked to their
parents and children and, through `list`, to one ring of all nodes. Making and
deleting nodes, and the functions that iterate over the ring.
-/
import DtUtils.StringLists
import DtUtils.Lib.Ring

namespace DtUtils
open Lib

/-! ## Nodes -/

/-- `struct device_node`, apart from its `list` -/
structure TreeNode where
  name : CString
  fullName : CString
  phandle : UInt32
  parent : Option Nat
  children : List Nat
  properties : List Property

/-- What the property functions see of a node. -/
def TreeNode.device (n : TreeNode) : DeviceNode := .node n.name n.phandle n.properties []

/-- The nodes in use, with the ring that their `list` members make. -/
structure NodeTree where
  rootNode : Option Nat
  live : List Nat
  node : Nat → TreeNode
  list : Links Nat

def NodeTree.modify (t : NodeTree) (id : Nat) (f : TreeNode → TreeNode) : NodeTree :=
  { t with node := Function.update t.node id (f (t.node id)) }

/-- `of_new_node`, with the address that the new node is given -/
def ofNewNode (t : NodeTree) (new : Nat) (parent : Option Nat) (name : CString) : NodeTree :=
  match parent with
  | some parent =>
    let fullName := (t.node parent).fullName.append ((cstr "/").append name)
    let t := t.modify parent fun n => { n with children := n.children ++ [new] }
    { t with
      live := new :: t.live
      node := Function.update t.node new ⟨name, fullName, 0, some parent, [], []⟩
      list := t.list.add new parent }
  | none =>
    { t with
      live := new :: t.live
      node := Function.update t.node new ⟨.empty, .empty, 0, none, [], []⟩
      list := t.list.init new }

/-- `xzalloc`: an address that is not in use. -/
structure Allocator where
  alloc : List Nat → Nat
  fresh : ∀ live, alloc live ∉ live

/-- The address behind all that are in use. -/
def nextAddress : Allocator where
  alloc live := live.foldr (fun x m => max (x + 1) m) 0
  fresh live := by
    have hbound : ∀ x ∈ live, x < live.foldr (fun x m => max (x + 1) m) 0 := by
      induction live with
      | nil => simp
      | cons y ys ih =>
        intro x hx
        rw [List.foldr_cons]
        rcases List.mem_cons.1 hx with rfl | hx
        · omega
        · have := ih x hx
          omega
    exact fun hmem => absurd (hbound _ hmem) (lt_irrefl _)

/-- The end of `of_delete_node`: a node leaves its parent and the ring, and is
freed. -/
def NodeTree.unlink (t : NodeTree) (id : Nat) : NodeTree :=
  let t := match (t.node id).parent with
    | some parent =>
      { t.modify parent fun n => { n with children := n.children.erase id } with list := t.list.del id }
    | none => t
  { t with live := t.live.erase id, rootNode := if t.rootNode = some id then none else t.rootNode }

/-- `of_delete_node`. `fuel` bounds the depth of the recursion. -/
def ofDeleteNode : Nat → NodeTree → Nat → Option NodeTree
  | 0, _, _ => none
  | fuel + 1, t, id => do
    let t ← (t.node id).children.foldlM (ofDeleteNode fuel) t
    return t.unlink id

/-- A tree of only a root, made the internal one. -/
def NodeTree.fresh (root : Nat) : NodeTree :=
  { ofNewNode ⟨none, [], fun _ => ⟨.empty, .empty, 0, none, [], []⟩, ⟨fun _ => none, fun _ => none⟩⟩ root none
      .empty with
    rootNode := some root }

/-! ## Iteration -/

/-- `of_next_node`; the inner `none` is `NULL`. -/
def ofNextNode (t : NodeTree) (node : Nat) : Option (Option Nat) := do
  let next ← t.list.next node
  return if (t.node next).parent.isSome then some next else none

/-- The nodes that `of_tree_for_each_node_from` goes over. `fuel` bounds the
number of rounds. -/
def treeNodesFrom (t : NodeTree) : Nat → Nat → Option (List Nat)
  | 0, _ => none
  | fuel + 1, node => do
    match ← ofNextNode t node with
    | none => return []
    | some next => (next :: ·) <$> treeNodesFrom t fuel next

/-- The loop of the search functions; without a node they start at the root. -/
def findFrom (t : NodeTree) (test : TreeNode → Option Bool) (start : Option Nat) : Option (Option Nat) := do
  let start ← start.or t.rootNode
  let nodes ← treeNodesFrom t t.live.length start
  nodes.findM? fun id => test (t.node id)

/-- The loop of the `for_each` macros over a search function. -/
def forEachFound (find : Option Nat → Option (Option Nat)) : Nat → Option Nat → Option (List Nat)
  | 0, _ => none
  | fuel + 1, dn => do
    match ← find dn with
    | none => return []
    | some dn => (dn :: ·) <$> forEachFound find fuel (some dn)

/-- `tolower` -/
def toLower (c : UInt8) : UInt8 := if 65 ≤ c ∧ c ≤ 90 then c + 32 else c

/-- `strcasecmp` finds no difference. -/
def sameButCase (s t : CString) : Bool := s.1.map toLower = t.1.map toLower

/-- `of_device_is_compatible` -/
def ofDeviceIsCompatible (device : DeviceNode) (compat : CString) : Option Bool :=
  match ofFindProperty device (cstr "compatible") with
  | none => some false
  | some prop => stringsLoop (fun _ cp => if sameButCase cp compat then some true else none) (fun _ => false)
      prop.value.length 0 prop.value

/-- `of_find_node_by_name` -/
def ofFindNodeByName (t : NodeTree) (name : CString) : Option Nat → Option (Option Nat) :=
  findFrom t fun np => some (sameButCase np.name name)

/-- `of_find_compatible_node` -/
def ofFindCompatibleNode (t : NodeTree) (compatible : CString) : Option Nat → Option (Option Nat) :=
  findFrom t fun np => ofDeviceIsCompatible np.device compatible

/-- `of_find_node_with_property` -/
def ofFindNodeWithProperty (t : NodeTree) (propName : CString) : Option Nat → Option (Option Nat) :=
  findFrom t fun np => some (ofFindProperty np.device propName).isSome

/-- `for_each_node_by_name` -/
def forEachNodeByName (t : NodeTree) (name : CString) : Option (List Nat) :=
  forEachFound (ofFindNodeByName t name) t.live.length none

/-- `for_each_compatible_node` -/
def forEachCompatibleNode (t : NodeTree) (compatible : CString) : Option (List Nat) :=
  forEachFound (ofFindCompatibleNode t compatible) t.live.length none

/-- `for_each_node_with_property` -/
def forEachNodeWithProperty (t : NodeTree) (propName : CString) : Option (List Nat) :=
  forEachFound (ofFindNodeWithProperty t propName) t.live.length none

/-! ## Trees -/

/-- A node lies somewhere below another one. -/
def NodeTree.Below (t : NodeTree) (a x : Nat) : Prop := Relation.TransGen (fun x p => (t.node x).parent = some p) x a

/-- The nodes other than the root in the ring's order, and how they hang
together: what is below a node follows it in one piece. -/
structure NodeTree.WellFormed (t : NodeTree) (root : Nat) (order : List Nat) : Prop where
  rootNode : t.rootNode = some root
  ring : t.list.Ring (root :: order)
  live : ∀ x, x ∈ t.live ↔ x ∈ root :: order
  liveNodup : t.live.Nodup
  rootParent : (t.node root).parent = none
  rootPath : (t.node root).fullName = .empty
  parent : ∀ x ∈ order, ∃ p ∈ root :: order, (t.node x).parent = some p
  path : ∀ x ∈ order, ∀ p, (t.node x).parent = some p →
    (t.node x).fullName = (t.node p).fullName.append ((cstr "/").append (t.node x).name)
  children : ∀ p ∈ root :: order, ∀ x, x ∈ (t.node p).children ↔ x ∈ order ∧ (t.node x).parent = some p
  childrenNodup : ∀ p ∈ root :: order, (t.node p).children.Nodup
  contiguous : ∀ a ∈ root :: order, ∃ before run after, root :: order = before ++ a :: (run ++ after) ∧
    ∀ x, x ∈ run ↔ x ∈ order ∧ t.Below a x

end DtUtils
