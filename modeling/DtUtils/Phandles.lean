/-
Phandles: numbers that nodes give to each other. `of_node_create_phandle` takes
the next number of the tree, `of_parse_phandle` looks for the node with a
number; which of the two go wrong says `phandles_resolve`. `none` results are
accesses outside an object.
-/
import DtUtils.NodePaths
import DtUtils.PropertyWrites
import DtUtils.FdtRoundTrip

namespace DtUtils
open Lib Links

/-! ## The functions -/

/-- `of_find_node_by_phandle` -/
def ofFindNodeByPhandle (t : NodeTree) (phandle : UInt32) : Option (Option Nat) :=
  findFrom t (fun node => some (node.phandle = phandle)) none

/-- `of_parse_phandle` -/
def ofParsePhandle (t : NodeTree) (np : Nat) (phandleName : CString) (index : Int) : Option (Option Nat) :=
  match ofGetProperty (t.node np).device phandleName with
  | none => some none
  | some phandle =>
    -- The comparison is one of `size_t`s.
    if (phandle.length : Int) < 4 * (index + 1) % 2 ^ 64 then some none
    else if index < 0 then none
    else ofFindNodeByPhandle t (cell (4 * index.toNat) phandle)

/-- `of_get_tree_max_phandle` -/
def ofGetTreeMaxPhandle (t : NodeTree) (root : Nat) : Option UInt32 :=
  (treeNodesFrom t t.live.length root).map fun nodes =>
    nodes.foldl (fun max n => if (t.node n).phandle > max then (t.node n).phandle else max) (t.node root).phandle

/-- `of_find_root_node`. `fuel` bounds the number of rounds. -/
def ofFindRootNode (t : NodeTree) : Nat → Nat → Option Nat
  | 0, _ => none
  | fuel + 1, node =>
    match (t.node node).parent with
    | none => some node
    | some parent => ofFindRootNode t fuel parent

/-- `of_node_create_phandle`: the tree afterwards, and the return value -/
def ofNodeCreatePhandle (t : NodeTree) (node : Nat) : Option (NodeTree × UInt32) :=
  if (t.node node).phandle ≠ 0 then some (t, (t.node node).phandle)
  else do
    let root ← ofFindRootNode t t.live.length node
    let max ← ofGetTreeMaxPhandle t root
    let p := max + 1
    let (properties, _) ← ofSetProperty (t.node node).properties (cstr "phandle") (beBytes 4 p.toNat) 4 true
    return (t.modify node fun n => { n with phandle := p, properties := properties }, p)

/-! ## Trees from blobs -/

mutual
/-- A node that `of_unflatten_dtb` makes below another one, with its contents. -/
def loadNode (A : Allocator) (parent : Nat) : DeviceNode → NodeTree → NodeTree
  | .node name phandle properties children, t =>
    let new := A.alloc t.live
    loadNodes A new children ((ofNewNode t new (some parent) name).modify new fun n =>
      { n with phandle := phandle, properties := properties })

def loadNodes (A : Allocator) (parent : Nat) : List DeviceNode → NodeTree → NodeTree
  | [], t => t
  | node :: nodes, t => loadNodes A parent nodes (loadNode A parent node t)
end

/-- The tree that `of_unflatten_dtb` makes, with its root the internal one. -/
def loadTree (A : Allocator) : DeviceNode → NodeTree
  | .node _ phandle properties children =>
    let root := A.alloc []
    loadNodes A root children ((NodeTree.fresh root).modify root fun n =>
      { n with phandle := phandle, properties := properties })

/-! ## What phandles are for -/

/-- A node has a `phandle` property of 4 bytes with this value. -/
def CarriesPhandle (t : NodeTree) (x : Nat) (p : UInt32) : Prop :=
  ∃ prop ∈ (t.node x).properties, prop.name = cstr "phandle" ∧ prop.value.length = 4 ∧ cell 0 prop.value = p

instance (t : NodeTree) (x : Nat) (p : UInt32) : Decidable (CarriesPhandle t x p) :=
  inferInstanceAs (Decidable (∃ prop ∈ (t.node x).properties, _))

/-- The number is found on the node that carries it, and nowhere if there is
none. -/
def Resolves (t : NodeTree) (p : UInt32) (found : Option (Option Nat)) : Prop :=
  ∃ r, found = some r ∧ ∀ x, r = some x ↔ x ∈ t.live ∧ CarriesPhandle t x p

/-- The node has a phandle, or there is a number left for it. -/
def CreationFits (t : NodeTree) (id : Nat) : Prop :=
  (t.node id).phandle ≠ 0 ∨ ∀ x ∈ t.live, (t.node x).phandle ≠ 0xffffffff

/-- The number is not carried by the root, nor by a node where a later
`phandle` overrides it; and 0 is not looked for behind a node without a phandle. -/
structure LookupFits (t : NodeTree) (p : UInt32) : Prop where
  own : ∀ x ∈ t.live, CarriesPhandle t x p → t.rootNode ≠ some x ∧ (t.node x).phandle = p
  zero : p = 0 → ∀ root before x after, t.rootNode = some root →
    treeNodesFrom t t.live.length root = some (before ++ x :: after) → (t.node x).phandle = 0 →
    (∀ y ∈ before, (t.node y).phandle ≠ 0) → CarriesPhandle t x 0

/-- Trees read from a blob in which no two nodes carry the same phandle, and
the creation of phandles in them. The addresses of the nodes passed are the
labels. -/
def phandleSystem : System NodeTree Nat where
  init t := ∃ fdt tree A, ofUnflattenDtb fdt = some (.ok tree) ∧ t = loadTree A tree ∧
    ∀ p, ∀ x ∈ t.live, ∀ y ∈ t.live, CarriesPhandle t x p → CarriesPhandle t y p → x = y
  step t id t' := id ∈ t.live ∧ CreationFits t id ∧ ∃ p, ofNodeCreatePhandle t id = some (t', p)

/-! ## What is read from a blob -/

/-- The phandle is that of the properties. -/
def OwnPhandle : DeviceNode → Prop
  | .node _ phandle properties _ => phandle = phandleOf properties

theorem phandleOf_append (properties : List Property) (p : Property) : phandleOf (properties ++ [p]) =
    if p.name = cstr "phandle" ∧ p.value.length = 4 then cell 0 p.value else phandleOf properties := by
  by_cases hp : p.name = cstr "phandle" ∧ p.value.length = 4
  · simp [phandleOf, List.filter_append, hp]
  · simp [phandleOf, List.filter_append, hp]

theorem allNodes_append {P : DeviceNode → Prop} {nodes : List DeviceNode} {node : DeviceNode}
    (h : allNodes P nodes) (hnode : node.All P) : allNodes P (nodes ++ [node]) := by
  induction nodes with
  | nil => exact ⟨hnode, trivial⟩
  | cons n ns ih => exact ⟨h.1, ih h.2⟩

theorem all_addProperty {node : DeviceNode} (h : node.All OwnPhandle) (p : Property) :
    (node.addProperty p).All OwnPhandle := by
  obtain ⟨name, phandle, properties, children⟩ := node
  obtain ⟨hown, hchildren⟩ := h
  refine ⟨?_, hchildren⟩
  rw [OwnPhandle] at hown ⊢
  rw [phandleOf_append, hown]

theorem all_addChild {node child : DeviceNode} (h : node.All OwnPhandle) (hchild : child.All OwnPhandle) :
    (node.addChild child).All OwnPhandle := by
  obtain ⟨name, phandle, properties, children⟩ := node
  exact ⟨h.1, allNodes_append h.2 hchild⟩

/-- The nodes that are open all have their own phandles. -/
structure OwnPhandles (u : Unflattening) : Prop where
  top : u.top.All OwnPhandle
  parents : ∀ node ∈ u.parents, node.All OwnPhandle

theorem OwnPhandles.root {u : Unflattening} (h : OwnPhandles u) : u.root.All OwnPhandle := by
  obtain ⟨top, parents, isOpen⟩ := u
  obtain ⟨htop, hparents⟩ := h
  rw [Unflattening.root]
  dsimp only at htop hparents ⊢
  induction parents generalizing top with
  | nil => exact htop
  | cons parent parents ih =>
    rw [List.forall_mem_cons] at hparents
    exact ih _ (all_addChild hparents.1 htop) hparents.2

theorem unflattenAdvance_cases (f : FdtHeader) (dt size : Nat) (u : Unflattening) :
    (∃ e, unflattenAdvance f dt size u = .ret (.error e)) ∨ ∃ dt', unflattenAdvance f dt size u = .next dt' u := by
  rw [unflattenAdvance]
  split
  · exact .inl ⟨_, rfl⟩
  · exact .inr ⟨_, rfl⟩

/-- What a round of the loop does to the nodes. -/
inductive UnflattenEffect (u : Unflattening) : Unflattening → Prop
  | nop : UnflattenEffect u u
  | beginNode (name : CString) : UnflattenEffect u (u.beginNode name)
  | endNode : UnflattenEffect u u.endNode
  | prop (p : Property) : UnflattenEffect u (u.addProperty p)

/-- A round fails, ends the loop with the root, or has an effect. -/
theorem unflattenStep_effect {fdt : Bytes} {f : FdtHeader} {dt : Nat} {u : Unflattening} {r : Unflattened}
    (h : unflattenStep fdt f dt u = some r) :
    (∃ e, r = .ret (.error e)) ∨ r = .ret (.ok u.root) ∨ ∃ dt' u', r = .next dt' u' ∧ UnflattenEffect u u' := by
  have hadvance : ∀ {u' : Unflattening} {size : Nat}, UnflattenEffect u u' → unflattenAdvance f dt size u' = r →
      (∃ e, r = .ret (.error e)) ∨ r = .ret (.ok u.root) ∨ ∃ dt' u', r = .next dt' u' ∧ UnflattenEffect u u' := by
    intro u' size heffect hr
    rcases unflattenAdvance_cases f dt size u' with ⟨e, he⟩ | ⟨dt', hdt'⟩
    · exact .inl ⟨e, hr.symm.trans he⟩
    · exact .inr (.inr ⟨dt', u', hr.symm.trans hdt', heffect⟩)
  rw [unflattenStep, Option.bind_eq_bind, Option.bind_eq_some_iff] at h
  obtain ⟨tag, -, h⟩ := h
  split at h
  · rw [unflattenBeginNode, Option.bind_eq_bind, Option.bind_eq_some_iff] at h
    obtain ⟨len, -, h⟩ := h
    split at h
    · exact .inl ⟨_, (Option.some.inj h).symm⟩
    · split at h
      · obtain ⟨name, -, h⟩ := Option.bind_eq_some_iff.1 h
        exact hadvance (.beginNode name) (Option.some.inj h)
      · exact hadvance (.beginNode .empty) (Option.some.inj h)
  split at h
  · split at h
    · exact hadvance .endNode (Option.some.inj h)
    · exact .inl ⟨_, (Option.some.inj h).symm⟩
  split at h
  · simp only [unflattenProp, Option.bind_eq_bind, Option.bind_eq_some_iff] at h
    obtain ⟨len, -, nameoff, -, h⟩ := h
    split at h
    · exact .inl ⟨_, (Option.some.inj h).symm⟩
    · obtain ⟨name, -, h⟩ := Option.bind_eq_some_iff.1 h
      obtain ⟨value, -, h⟩ := Option.bind_eq_some_iff.1 h
      split at h
      · exact hadvance (.prop ⟨name, value⟩) (Option.some.inj h)
      · cases h
  split at h
  · exact hadvance .nop (Option.some.inj h)
  split at h
  · exact .inr (.inl (Option.some.inj h).symm)
  · exact .inl ⟨_, (Option.some.inj h).symm⟩

theorem OwnPhandles.effect {u u' : Unflattening} (h : OwnPhandles u) (heffect : UnflattenEffect u u') :
    OwnPhandles u' := by
  cases heffect with
  | nop => exact h
  | beginNode name =>
    rw [Unflattening.beginNode]
    split
    · exact ⟨⟨rfl, trivial⟩, List.forall_mem_cons.2 ⟨h.top, h.parents⟩⟩
    · exact ⟨h.top, h.parents⟩
  | endNode =>
    rw [Unflattening.endNode]
    split
    · exact ⟨h.top, h.parents⟩
    · next parent parents heq =>
      have hparents := h.parents
      rw [heq, List.forall_mem_cons] at hparents
      exact ⟨all_addChild hparents.1 h.top, hparents.2⟩
  | prop p => exact ⟨all_addProperty h.top p, h.parents⟩

theorem OwnPhandles.loop {fdt : Bytes} {f : FdtHeader} {t : DeviceNode} : ∀ {n dt : Nat} {u : Unflattening},
    OwnPhandles u → unflattenLoop fdt f n dt u = some (.ret (.ok t)) → t.All OwnPhandle
  | 0, _, _, _, hloop => by cases hloop
  | n + 1, dt, u, h, hloop => by
    rw [unflattenLoop] at hloop
    cases hstep : unflattenStep fdt f dt u with
    | none =>
      rw [hstep] at hloop
      cases hloop
    | some r =>
      rw [hstep] at hloop
      rcases unflattenStep_effect hstep with ⟨e, rfl⟩ | rfl | ⟨dt', u', rfl, heffect⟩
      · cases hloop
      · cases hloop
        exact h.root
      · exact OwnPhandles.loop (h.effect heffect) hloop

theorem unflatten_own {fdt : Bytes} {tree : DeviceNode} (h : ofUnflattenDtb fdt = some (.ok tree)) :
    tree.All OwnPhandle := by
  rw [ofUnflattenDtb] at h
  split at h
  · cases h
  · cases h
  · split at h
    · next hloop =>
      rw [Option.some.inj h] at hloop
      have hstart : OwnPhandles .start := ⟨⟨rfl, trivial⟩, fun node hnode => by cases hnode⟩
      exact hstart.loop hloop
    · cases h

/-! ## The tree that is made of it -/

section
variable {t : NodeTree} {root : Nat} {order : List Nat}

/-- The phandles are those of the properties. -/
def NodeTree.Own (t : NodeTree) : Prop := ∀ x ∈ t.live, (t.node x).phandle = phandleOf (t.node x).properties

/-- A node that is made leaves the contents of the others alone. -/
theorem ofNewNode_contents {new p x : Nat} (name : CString) (hx : x ≠ new) :
    ((ofNewNode t new (some p) name).node x).phandle = (t.node x).phandle ∧
      ((ofNewNode t new (some p) name).node x).properties = (t.node x).properties := by
  rw [ofNewNode_node, if_neg hx]
  split
  · next h =>
    subst h
    exact ⟨rfl, rfl⟩
  · exact ⟨rfl, rfl⟩

/-- A tree that is loaded holds together, has its own phandles, and still has
the nodes that were there. -/
structure LoadedOnto (t t' : NodeTree) (root : Nat) : Prop where
  wellFormed : ∃ order, t'.WellFormed root order
  own : t'.Own
  live : ∀ x ∈ t.live, x ∈ t'.live

theorem LoadedOnto.trans {t₁ t₂ t₃ : NodeTree} (h : LoadedOnto t₁ t₂ root) (h' : LoadedOnto t₂ t₃ root) :
    LoadedOnto t₁ t₃ root :=
  ⟨h'.wellFormed, h'.own, fun x hx => h'.live x (h.live x hx)⟩

theorem LoadedOnto.newNode (h : t.WellFormed root order) (hown : t.Own) {parent new : Nat} (hparent : parent ∈ t.live)
    (hnew : new ∉ t.live) (name : CString) {phandle : UInt32} {properties : List Property}
    (hphandle : phandle = phandleOf properties) :
    LoadedOnto t ((ofNewNode t new (some parent) name).modify new fun n =>
      { n with phandle := phandle, properties := properties }) root where
  wellFormed := ⟨_, (h.newNode ((h.live parent).1 hparent) (fun hmem => hnew ((h.live _).2 hmem)) name).modify new
    (fun _ => rfl) (fun _ => rfl) (fun _ => rfl) fun _ => rfl⟩
  own x hx := by
    rw [modify_node]
    split
    · exact hphandle
    · next hne =>
      obtain ⟨hphandle, hproperties⟩ := ofNewNode_contents (t := t) (p := parent) name hne
      rw [hphandle, hproperties]
      exact hown x ((List.mem_cons.1 hx).resolve_left hne)
  live x hx := List.mem_cons_of_mem _ hx

mutual
theorem loadNode_spec (A : Allocator) : ∀ {node : DeviceNode} {t : NodeTree} {order : List Nat} {parent : Nat},
    t.WellFormed root order → t.Own → parent ∈ t.live → node.All OwnPhandle →
    LoadedOnto t (loadNode A parent node t) root
  | .node name phandle properties children, t, order, parent, h, hown, hparent, hnode => by
    have hnew := LoadedOnto.newNode h hown hparent (A.fresh t.live) name hnode.1
    obtain ⟨order', hwf⟩ := hnew.wellFormed
    rw [loadNode]
    exact hnew.trans (loadNodes_spec A hwf hnew.own List.mem_cons_self hnode.2)

theorem loadNodes_spec (A : Allocator) : ∀ {nodes : List DeviceNode} {t : NodeTree} {order : List Nat} {parent : Nat},
    t.WellFormed root order → t.Own → parent ∈ t.live → allNodes OwnPhandle nodes →
    LoadedOnto t (loadNodes A parent nodes t) root
  | [], t, order, parent, h, hown, _, _ => by
    rw [loadNodes]
    exact ⟨⟨order, h⟩, hown, fun _ hx => hx⟩
  | node :: nodes, t, order, parent, h, hown, hparent, hnodes => by
    have hnode := loadNode_spec A h hown hparent hnodes.1
    obtain ⟨order', hwf⟩ := hnode.wellFormed
    rw [loadNodes]
    exact hnode.trans (loadNodes_spec A hwf hnode.own (hnode.live parent hparent) hnodes.2)
end

theorem loadTree_spec (A : Allocator) {tree : DeviceNode} (h : tree.All OwnPhandle) :
    ∃ root order, (loadTree A tree).WellFormed root order ∧ (loadTree A tree).Own := by
  obtain ⟨name, phandle, properties, children⟩ := tree
  have hwf := (NodeTree.WellFormed.fresh (A.alloc [])).modify (A.alloc [])
    (f := fun n => { n with phandle := phandle, properties := properties })
    (fun _ => rfl) (fun _ => rfl) (fun _ => rfl) fun _ => rfl
  have hown : ((NodeTree.fresh (A.alloc [])).modify (A.alloc []) fun n =>
      { n with phandle := phandle, properties := properties }).Own := by
    intro x hx
    obtain rfl := List.mem_singleton.1 hx
    rw [modify_node, if_pos rfl]
    exact h.1
  obtain ⟨⟨order, hwf⟩, hown, -⟩ := loadNodes_spec A hwf hown List.mem_cons_self h.2
  exact ⟨_, order, hwf, hown⟩

/-! ## The next phandle -/

theorem NodeTree.WellFormed.findRootNode (h : t.WellFormed root order) {x : Nat} (hx : x ∈ t.live) :
    ofFindRootNode t t.live.length x = some root := by
  have key : ∀ {fuel : Nat} {before after : List Nat} {x : Nat}, root :: order = before ++ x :: after →
      before.length < fuel → ofFindRootNode t fuel x = some root := by
    intro fuel
    induction fuel with
    | zero => exact fun _ hlt => absurd hlt (Nat.not_lt_zero _)
    | succ fuel ih =>
      intro before after x heq hlt
      have hx : x ∈ root :: order := heq ▸ List.mem_append_right _ List.mem_cons_self
      rw [ofFindRootNode]
      rcases List.mem_cons.1 hx with rfl | hx
      · rw [h.rootParent]
      · obtain ⟨p, -, hpar⟩ := h.parent x hx
        obtain ⟨before', run, rfl⟩ := h.parent_before heq hpar
        rw [hpar]
        rw [List.append_assoc, List.cons_append] at heq
        refine ih heq ?_
        rw [List.length_append, List.length_cons] at hlt
        omega
  obtain ⟨before, after, heq⟩ := List.append_of_mem ((h.live x).1 hx)
  have hlen := congrArg List.length heq
  rw [List.length_append, List.length_cons, List.length_cons] at hlen
  refine key heq ?_
  rw [h.length_live]
  omega

theorem foldl_max_spec (f : Nat → UInt32) : ∀ (xs : List Nat) (max : UInt32),
    max ≤ xs.foldl (fun max n => if f n > max then f n else max) max ∧
    (∀ x ∈ xs, f x ≤ xs.foldl (fun max n => if f n > max then f n else max) max) ∧
    (xs.foldl (fun max n => if f n > max then f n else max) max = max ∨
      ∃ x ∈ xs, xs.foldl (fun max n => if f n > max then f n else max) max = f x)
  | [], max => ⟨UInt32.le_refl max, by simp, .inl rfl⟩
  | x :: xs, max => by
    rw [List.foldl_cons]
    obtain ⟨hmax, hall, hattained⟩ := foldl_max_spec f xs (if f x > max then f x else max)
    have hboth : max ≤ (if f x > max then f x else max) ∧ f x ≤ (if f x > max then f x else max) := by
      split
      · next hlt => exact ⟨UInt32.le_of_lt hlt, UInt32.le_refl _⟩
      · next hle => exact ⟨UInt32.le_refl _, UInt32.not_lt.1 hle⟩
    refine ⟨UInt32.le_trans hboth.1 hmax, List.forall_mem_cons.2 ⟨UInt32.le_trans hboth.2 hmax, hall⟩, ?_⟩
    rcases hattained with heq | ⟨y, hy, heq⟩
    · rw [heq]
      split
      · exact .inr ⟨x, List.mem_cons_self, rfl⟩
      · exact .inl rfl
    · exact .inr ⟨y, List.mem_cons_of_mem _ hy, heq⟩

theorem NodeTree.WellFormed.treeMaxPhandle (h : t.WellFormed root order) :
    ∃ max, ofGetTreeMaxPhandle t root = some max ∧ (∀ x ∈ t.live, (t.node x).phandle ≤ max) ∧
      ∃ x ∈ t.live, (t.node x).phandle = max := by
  have hnodes : treeNodesFrom t t.live.length root = some order := h.treeNodes
  obtain ⟨hroot, hall, hattained⟩ := foldl_max_spec (fun n => (t.node n).phandle) order (t.node root).phandle
  refine ⟨_, by rw [ofGetTreeMaxPhandle, hnodes, Option.map_some], fun x hx => ?_, ?_⟩
  · rcases List.mem_cons.1 ((h.live x).1 hx) with rfl | hx
    · exact hroot
    · exact hall x hx
  · rcases hattained with heq | ⟨x, hx, heq⟩
    · exact ⟨root, (h.live root).2 List.mem_cons_self, heq.symm⟩
    · exact ⟨x, (h.live x).2 (List.mem_cons_of_mem _ hx), heq.symm⟩

/-- A node with a new phandle. -/
def TreeNode.withPhandle (n : TreeNode) (p : UInt32) : TreeNode :=
  { n with
    phandle := p
    properties := ofDeleteProperty n.properties (cstr "phandle") ++ [⟨cstr "phandle", beBytes 4 p.toNat⟩] }

theorem NodeTree.WellFormed.createPhandle (h : t.WellFormed root order) {id : Nat} (hid : id ∈ t.live)
    (hzero : (t.node id).phandle = 0) :
    ∃ max, (∀ x ∈ t.live, (t.node x).phandle ≤ max) ∧ (∃ x ∈ t.live, (t.node x).phandle = max) ∧
      ofNodeCreatePhandle t id = some (t.modify id (·.withPhandle (max + 1)), max + 1) := by
  obtain ⟨max, hmax, hall, hattained⟩ := h.treeMaxPhandle
  refine ⟨max, hall, hattained, ?_⟩
  have hset : ofSetProperty (t.node id).properties (cstr "phandle") (beBytes 4 (max + 1).toNat) 4 true =
      some (((t.node id).withPhandle (max + 1)).properties, 0) := by
    have hnew := @ofNewProperty_nat (ofDeleteProperty (t.node id).properties (cstr "phandle")) (cstr "phandle")
      (beBytes 4 (max + 1).toNat)
    rw [beBytes_length] at hnew
    rw [ofSetProperty_create]
    exact congrArg (Option.map _) hnew
  rw [ofNodeCreatePhandle, if_neg (by simp [hzero]), h.findRootNode hid]
  simp only [Option.bind_eq_bind, Option.bind_some, hmax, hset]
  rfl

/-! ## Numbers -/

theorem phandleOf_carries {properties : List Property} (h : phandleOf properties ≠ 0) :
    ∃ prop ∈ properties,
      prop.name = cstr "phandle" ∧ prop.value.length = 4 ∧ cell 0 prop.value = phandleOf properties := by
  rw [phandleOf] at h ⊢
  split at h
  · next prop hlast =>
    obtain ⟨hmem, hprop⟩ := List.mem_filter.1 (List.mem_of_getLast? hlast)
    exact ⟨prop, hmem, (of_decide_eq_true hprop).1, (of_decide_eq_true hprop).2, rfl⟩
  · exact absurd rfl h

/-- What holds of the phandles of a tree: those other than 0 are carried by
their nodes and are different, and at most one node carries a 0. -/
structure NodeTree.Numbered (t : NodeTree) : Prop where
  wellFormed : ∃ root order, t.WellFormed root order
  carries : ∀ x ∈ t.live, (t.node x).phandle ≠ 0 → CarriesPhandle t x (t.node x).phandle
  distinct : ∀ x ∈ t.live, ∀ y ∈ t.live, (t.node x).phandle = (t.node y).phandle → (t.node x).phandle ≠ 0 → x = y
  zero : ∀ x ∈ t.live, ∀ y ∈ t.live, CarriesPhandle t x 0 → CarriesPhandle t y 0 → x = y

theorem NodeTree.Numbered.load {fdt : Bytes} {tree : DeviceNode} (hblob : ofUnflattenDtb fdt = some (.ok tree))
    (A : Allocator) (hunique : ∀ p, ∀ x ∈ (loadTree A tree).live, ∀ y ∈ (loadTree A tree).live,
      CarriesPhandle (loadTree A tree) x p → CarriesPhandle (loadTree A tree) y p → x = y) :
    (loadTree A tree).Numbered := by
  obtain ⟨root, order, hwf, hown⟩ := loadTree_spec A (unflatten_own hblob)
  have hcarries : ∀ x ∈ (loadTree A tree).live, ((loadTree A tree).node x).phandle ≠ 0 →
      CarriesPhandle (loadTree A tree) x ((loadTree A tree).node x).phandle := by
    intro x hx hne
    rw [hown x hx] at hne ⊢
    exact phandleOf_carries hne
  refine ⟨⟨root, order, hwf⟩, hcarries, fun x hx y hy heq hne => ?_, hunique 0⟩
  exact hunique _ x hx y hy (hcarries x hx hne) (heq ▸ hcarries y hy (heq ▸ hne))

theorem carries_withPhandle {id x : Nat} {p q : UInt32} (h : CarriesPhandle (t.modify id (·.withPhandle p)) x q) :
    CarriesPhandle t x q ∨ x = id ∧ q = p := by
  obtain ⟨prop, hmem, hname, hlen, hcell⟩ := h
  rw [modify_node] at hmem
  split at hmem
  · next hx =>
    subst hx
    rcases List.mem_append.1 hmem with hmem | hmem
    · exact .inl ⟨prop, List.mem_of_mem_eraseP hmem, hname, hlen, hcell⟩
    · obtain rfl := List.mem_singleton.1 hmem
      exact .inr ⟨rfl, hcell.symm.trans (cell_beBytes p)⟩
  · exact .inl ⟨prop, hmem, hname, hlen, hcell⟩

/-- A number that no node has may be given to one. -/
theorem NodeTree.Numbered.withPhandle (h : t.Numbered) (id : Nat) {p : UInt32} (hp : p ≠ 0)
    (hnew : ∀ x ∈ t.live, (t.node x).phandle ≠ p) : (t.modify id (·.withPhandle p)).Numbered := by
  obtain ⟨root, order, hwf⟩ := h.wellFormed
  have hphandle : ∀ x, ((t.modify id (·.withPhandle p)).node x).phandle = if x = id then p else (t.node x).phandle := by
    intro x
    rw [modify_node]
    split
    · rfl
    · rfl
  refine ⟨⟨root, order, hwf.modify id (fun _ => rfl) (fun _ => rfl) (fun _ => rfl) fun _ => rfl⟩, fun x hx hne => ?_,
    fun x hx y hy heq hne => ?_, fun x hx y hy hcarriesx hcarriesy => ?_⟩
  · rw [hphandle] at hne ⊢
    rw [CarriesPhandle, modify_node]
    split
    · exact ⟨_, List.mem_append_right _ (List.mem_singleton.2 rfl), rfl, beBytes_length .., cell_beBytes p⟩
    · next hxid =>
      rw [if_neg hxid] at hne
      exact h.carries x hx hne
  · rw [hphandle, hphandle] at heq
    rw [hphandle] at hne
    by_cases hxid : x = id
    · by_cases hyid : y = id
      · exact hxid.trans hyid.symm
      · rw [if_pos hxid, if_neg hyid] at heq
        exact absurd heq.symm (hnew y hy)
    · rw [if_neg hxid] at heq hne
      by_cases hyid : y = id
      · rw [if_pos hyid] at heq
        exact absurd heq (hnew x hx)
      · rw [if_neg hyid] at heq
        exact h.distinct x hx y hy heq hne
  · have hx₀ := (carries_withPhandle hcarriesx).resolve_right fun hzero => hp hzero.2.symm
    have hy₀ := (carries_withPhandle hcarriesy).resolve_right fun hzero => hp hzero.2.symm
    exact h.zero x hx y hy hx₀ hy₀

/-- A node that has a phandle keeps it; another one gets a number that no node
has, if there is one. -/
theorem NodeTree.Numbered.create (h : t.Numbered) {id : Nat} (hid : id ∈ t.live) :
    ∃ t' p, ofNodeCreatePhandle t id = some (t', p) ∧ (p ≠ 0 ↔ CreationFits t id) ∧
      (CreationFits t id → t'.Numbered ∧ (t'.node id).phandle ≠ 0 ∧
        ∀ x, (t.node x).phandle ≠ 0 → (t'.node x).phandle ≠ 0) := by
  obtain ⟨root, order, hwf⟩ := h.wellFormed
  by_cases hzero : (t.node id).phandle = 0
  · obtain ⟨max, hall, ⟨last, hlast, hattained⟩, heq⟩ := hwf.createPhandle hid hzero
    have hfits : max + 1 ≠ 0 ↔ CreationFits t id := by
      rw [CreationFits, or_iff_right (not_not_intro hzero)]
      constructor
      · intro hne x hx hmax
        have hle := hall x hx
        grind
      · intro hnone
        have hne := hnone last hlast
        grind
    refine ⟨_, _, heq, hfits, fun hfit => ?_⟩
    have hne := hfits.2 hfit
    have hnew : ∀ x ∈ t.live, (t.node x).phandle ≠ max + 1 := by
      intro x hx
      have hle := hall x hx
      grind
    refine ⟨h.withPhandle id hne hnew, ?_, fun x hx => ?_⟩
    · rw [modify_node, if_pos rfl]
      exact hne
    · rw [modify_node]
      split
      · exact hne
      · exact hx
  · refine ⟨t, (t.node id).phandle, ?_, iff_of_true hzero (.inl hzero), fun _ => ⟨h, hzero, fun _ hx => hx⟩⟩
    rw [ofNodeCreatePhandle, if_pos hzero]

theorem phandleSystem_invariant :
    phandleSystem.Invariant fun ids t => t.Numbered ∧ ∀ id ∈ ids, (t.node id).phandle ≠ 0 where
  init h := by
    obtain ⟨fdt, tree, A, hblob, rfl, hunique⟩ := h
    exact ⟨.load hblob A hunique, by simp⟩
  step h hstep := by
    obtain ⟨hid, hfits, p, hcreate⟩ := hstep
    obtain ⟨t', p', heq, -, hfit⟩ := h.1.create hid
    cases hcreate.symm.trans heq
    obtain ⟨hnumbered, hne, hkeep⟩ := hfit hfits
    exact ⟨hnumbered, List.forall_mem_cons.2 ⟨hne, fun id hid => hkeep id (h.2 id hid)⟩⟩

/-! ## Looking for them -/

/-- The search finds the first node behind the root that has the number. -/
theorem NodeTree.WellFormed.findNodeByPhandle (h : t.WellFormed root order) (p : UInt32) :
    ofFindNodeByPhandle t p = some (order.find? fun x => (t.node x).phandle = p) := by
  rw [ofFindNodeByPhandle, (h.findFrom_eq _).1]
  exact List.findM?_pure _ order

theorem NodeTree.Numbered.resolves_iff (h : t.Numbered) (p : UInt32) :
    Resolves t p (ofFindNodeByPhandle t p) ↔ LookupFits t p := by
  obtain ⟨root, order, hwf⟩ := h.wellFormed
  have hnodes : treeNodesFrom t t.live.length root = some order := hwf.treeNodes
  have hlive : ∀ {x}, x ∈ order → x ∈ t.live := fun hx => (hwf.live _).2 (List.mem_cons_of_mem _ hx)
  have horder : ∀ {x}, x ∈ t.live → t.rootNode ≠ some x → x ∈ order := by
    intro x hx hroot
    refine (List.mem_cons.1 ((hwf.live x).1 hx)).resolve_left fun hxroot => hroot ?_
    rw [hxroot, hwf.rootNode]
  rw [hwf.findNodeByPhandle]
  constructor
  · intro hresolves
    obtain ⟨r, hfound, hr⟩ := hresolves
    obtain rfl := Option.some.inj hfound
    constructor
    · intro x hx hcarries
      have hfind := (hr x).2 ⟨hx, hcarries⟩
      exact ⟨hwf.ne_root (List.mem_of_find?_eq_some hfind), by simpa using List.find?_some hfind⟩
    · intro hp root' before x after hroot' hsplit hx hbefore
      subst hp
      obtain rfl := Option.some.inj (hwf.rootNode.symm.trans hroot')
      obtain rfl := Option.some.inj (hnodes.symm.trans hsplit)
      refine ((hr x).1 (List.find?_eq_some_iff_append.2 ⟨by simpa using hx, before, after, rfl, fun y hy => ?_⟩)).2
      simpa using hbefore y hy
  · intro hfits
    refine ⟨_, rfl, fun x => ⟨fun hfind => ?_, fun hx => ?_⟩⟩
    · have hx := hlive (List.mem_of_find?_eq_some hfind)
      obtain ⟨hphandle, before, after, hsplit, hbefore⟩ := List.find?_eq_some_iff_append.1 hfind
      have hphandle : (t.node x).phandle = p := by simpa using hphandle
      refine ⟨hx, ?_⟩
      by_cases hp : p = 0
      · subst hp
        refine hfits.zero rfl root before x after hwf.rootNode (hsplit ▸ hnodes) hphandle fun y hy => ?_
        simpa using hbefore y hy
      · rw [← hphandle] at hp ⊢
        exact h.carries x hx hp
    · obtain ⟨hx, hcarries⟩ := hx
      obtain ⟨hroot, hphandle⟩ := hfits.own x hx hcarries
      cases hfind : order.find? fun x => (t.node x).phandle = p with
      | none => exact absurd hphandle (by simpa using List.find?_eq_none.1 hfind x (horder hx hroot))
      | some y =>
        have hy := hlive (List.mem_of_find?_eq_some hfind)
        obtain ⟨hyphandle, before, after, hsplit, hbefore⟩ := List.find?_eq_some_iff_append.1 hfind
        have hyphandle : (t.node y).phandle = p := by simpa using hyphandle
        rw [Option.some.injEq]
        by_cases hp : p = 0
        · subst hp
          have hycarries := hfits.zero rfl root before y after hwf.rootNode (hsplit ▸ hnodes) hyphandle fun z hz => by
            simpa using hbefore z hz
          exact h.zero y hy x hx hycarries hcarries
        · exact h.distinct y hy x hx (hyphandle.trans hphandle.symm) (hyphandle ▸ hp)

theorem ofParsePhandle_cell {np : Nat} {name : CString} {value : Bytes} {index : Int}
    (hvalue : ofGetProperty (t.node np).device name = some value) (h0 : 0 ≤ index) (hlt : index < 2 ^ 31)
    (hin : 4 * (index + 1) ≤ value.length) :
    ofParsePhandle t np name index = ofFindNodeByPhandle t (cell (4 * index.toNat) value) := by
  rw [ofParsePhandle, hvalue]
  dsimp only
  rw [if_neg (by omega), if_neg (by omega)]

end

/-- **When phandles resolve to the nodes that carry them**: behind any run of
creations that all find a number left, the phandles other than 0 are different,
and every node passed has one; a further creation gives one if and only if there
is a number left. A cell resolves to the node that carries it if and only if
that is not the root, its last `phandle` is meant, and a 0 does not end at a node
without a phandle. -/
theorem phandles_resolve {ids : List Nat} {t : NodeTree} (h : phandleSystem.Run ids t) :
    (∀ x ∈ t.live, ∀ y ∈ t.live, (t.node x).phandle = (t.node y).phandle → (t.node x).phandle ≠ 0 → x = y) ∧
    (∀ id ∈ ids, (t.node id).phandle ≠ 0) ∧
    (∀ id ∈ t.live, ∃ t' p, ofNodeCreatePhandle t id = some (t', p) ∧ (p ≠ 0 ↔ CreationFits t id)) ∧
    ∀ np name value (index : Int), ofGetProperty (t.node np).device name = some value → 0 ≤ index → index < 2 ^ 31 →
      4 * (index + 1) ≤ value.length →
      (Resolves t (cell (4 * index.toNat) value) (ofParsePhandle t np name index) ↔
        LookupFits t (cell (4 * index.toNat) value)) := by
  obtain ⟨hnumbered, hpassed⟩ := phandleSystem_invariant.run h
  refine ⟨hnumbered.distinct, hpassed, fun id hid => ?_, fun np name value index hvalue h0 hlt hin => ?_⟩
  · obtain ⟨t', p, heq, hfits, -⟩ := hnumbered.create hid
    exact ⟨t', p, heq, hfits⟩
  · rw [ofParsePhandle_cell hvalue h0 hlt hin]
    exact hnumbered.resolves_iff _

/-- A root with the phandle 1 and the cells 0 and 1, and a node below it that
has no phandle. -/
def phandleBlob : Bytes :=
  smallBlob [1, 0, 3, 4, 0, 1, 3, 8, 8, 0, 1, 1, 0x63000000, 2, 2, 9] [112, 104, 97, 110, 100, 108, 101, 0, 97, 0]

def phandleTree : DeviceNode :=
  .node .empty 1 [⟨cstr "phandle", [0, 0, 0, 1]⟩, ⟨cstr "a", [0, 0, 0, 0, 0, 0, 0, 1]⟩] [.node (cstr "c") 0 [] []]

theorem phandleTree_read : ofUnflattenDtb phandleBlob = some (.ok phandleTree) := rfl

theorem phandleTree_unique (p : UInt32) : ∀ x ∈ (loadTree nextAddress phandleTree).live,
    ∀ y ∈ (loadTree nextAddress phandleTree).live, CarriesPhandle (loadTree nextAddress phandleTree) x p →
    CarriesPhandle (loadTree nextAddress phandleTree) y p → x = y := by
  have hlive : (loadTree nextAddress phandleTree).live = [1, 0] := by decide
  have hchild : ¬ CarriesPhandle (loadTree nextAddress phandleTree) 1 p := by
    intro hcarries
    obtain ⟨prop, hmem, -⟩ := hcarries
    cases hmem
  intro x hx y hy hcarriesx hcarriesy
  rw [hlive, List.mem_pair] at hx hy
  rcases hx with rfl | rfl
  · exact absurd hcarriesx hchild
  · rcases hy with rfl | rfl
    · exact absurd hcarriesy hchild
    · rfl

/-- The child is given the phandle 2. -/
theorem phandles_resolve_child : ∃ t, phandleSystem.Run [1] t ∧ (t.node 1).phandle ≠ 0 ∧
    ∀ np name value (index : Int), ofGetProperty (t.node np).device name = some value → 0 ≤ index → index < 2 ^ 31 →
      4 * (index + 1) ≤ value.length →
      (Resolves t (cell (4 * index.toNat) value) (ofParsePhandle t np name index) ↔
        LookupFits t (cell (4 * index.toNat) value)) := by
  have hfits : CreationFits (loadTree nextAddress phandleTree) 1 := .inr (by decide +kernel)
  have hcreate : ∃ t, ofNodeCreatePhandle (loadTree nextAddress phandleTree) 1 = some (t, 2) := ⟨_, rfl⟩
  obtain ⟨t, ht⟩ := hcreate
  have hrun : phandleSystem.Run [1] t :=
    .step (.init ⟨phandleBlob, phandleTree, nextAddress, phandleTree_read, rfl, phandleTree_unique⟩)
      ⟨by decide +kernel, hfits, 2, ht⟩
  obtain ⟨-, hpassed, -, hlookup⟩ := phandles_resolve hrun
  exact ⟨t, hrun, hpassed 1 (by simp), hlookup⟩

/-- The cell 0 resolves to the child, which has no phandle, and the cell 1 to
nothing, although the root carries it. -/
theorem phandles_unresolved : ∃ fdt tree t value, ofUnflattenDtb fdt = some (.ok tree) ∧ t = loadTree nextAddress tree ∧
    (∀ p, ∀ x ∈ t.live, ∀ y ∈ t.live, CarriesPhandle t x p → CarriesPhandle t y p → x = y) ∧
    ofGetProperty (t.node 0).device (cstr "a") = some value ∧ value.length = 8 ∧
    ¬ Resolves t (cell 0 value) (ofParsePhandle t 0 (cstr "a") 0) ∧
    ¬ Resolves t (cell 4 value) (ofParsePhandle t 0 (cstr "a") 1) := by
  refine ⟨phandleBlob, phandleTree, _, [0, 0, 0, 0, 0, 0, 0, 1], phandleTree_read, rfl, phandleTree_unique,
    by decide +kernel, rfl, fun hresolves => ?_, fun hresolves => ?_⟩
  · have hfound : ofParsePhandle (loadTree nextAddress phandleTree) 0 (cstr "a") 0 = some (some 1) := by decide +kernel
    obtain ⟨r, hr, hall⟩ := hresolves
    obtain rfl := Option.some.inj (hfound.symm.trans hr)
    exact absurd ((hall 1).1 rfl).2 (by decide +kernel)
  · have hfound : ofParsePhandle (loadTree nextAddress phandleTree) 0 (cstr "a") 1 = some none := by decide +kernel
    obtain ⟨r, hr, hall⟩ := hresolves
    obtain rfl := Option.some.inj (hfound.symm.trans hr)
    have hroot : (none : Option Nat) = some 0 := (hall 0).2 ⟨by decide +kernel, by decide +kernel⟩
    cases hroot

end DtUtils
