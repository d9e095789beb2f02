/-
Which devices are in use: a device is disabled by its `status` property and
enabled by deleting it, and there are loops over the children that are in use.
`none` results are comparisons that go on behind a value.

Behind any calls of `of_device_enable_path` and `of_device_disable_path` a node
is available as the last of them that led to it says, and the loops go over
exactly the available children (`available_as_said`).
-/
import DtUtils.Aliases
import DtUtils.PropertyWrites

namespace DtUtils
open Lib

/-! ## The functions -/

/-- `strcmp` finds no difference between a value and a string. -/
def strcmpEqual (value : Bytes) (s : CString) : Option Bool :=
  if value <+: s.1 then none else some (decide (s.1 ++ [0] <+: value))

/-- `of_device_is_available` -/
def ofDeviceIsAvailable (device : DeviceNode) : Option Bool :=
  match ofGetProperty device (cstr "status") with
  | none => some true
  | some status =>
    if status.length = 0 then some false
    else do
      if ← strcmpEqual status (cstr "okay") then return true
      else strcmpEqual status (cstr "ok")

/-- `of_get_next_available_child` -/
def ofGetNextAvailableChild (t : NodeTree) (node : Nat) (prev : Option Nat) : Option (Option Nat) :=
  let children := match prev with
    | none => (t.node node).children
    | some prev => ((t.node node).children.dropWhile (· ≠ prev)).tail
  children.findM? fun child => ofDeviceIsAvailable (t.node child).device

/-- `for_each_available_child_of_node` -/
def forEachAvailableChild (t : NodeTree) (parent : Nat) : Option (List Nat) :=
  forEachFound (ofGetNextAvailableChild t parent) ((t.node parent).children.length + 1) none

/-- `of_get_child_count` -/
def ofGetChildCount (t : NodeTree) : Option Nat → Int
  | none => -EINVAL
  | some parent => (t.node parent).children.length

/-- The loop of `of_get_available_child_count`. -/
def countAvailable (t : NodeTree) : List Nat → Int → Option Int
  | [], num => some num
  | child :: children, num => do
    if ← ofDeviceIsAvailable (t.node child).device then countAvailable t children (num + 1)
    else countAvailable t children num

/-- `of_get_available_child_count` -/
def ofGetAvailableChildCount (t : NodeTree) : Option Nat → Option Int
  | none => some (-EINVAL)
  | some parent => countAvailable t (t.node parent).children 0

/-- `of_device_enable` -/
def ofDeviceEnable (properties : List Property) : Option (List Property × Int) :=
  some (ofDeleteProperty properties (cstr "status"), 0)

/-- `of_device_disable` -/
def ofDeviceDisable (properties : List Property) : Option (List Property × Int) :=
  ofPropertyWriteString properties (cstr "status") (cstr "disabled")

/-- A node with other properties. -/
def NodeTree.withProperties (t : NodeTree) (id : Nat) (properties : List Property) : NodeTree :=
  t.modify id fun n => { n with properties := properties }

/-- What `of_device_enable_path` and `of_device_disable_path` have in common. -/
def devicePath (f : List Property → Option (List Property × Int)) (t : NodeTree) (path : CString) :
    Option (NodeTree × Int) := do
  match ← ofFindNodeByPathFrom t none path with
  | none => return (t, -ENODEV)
  | some node =>
    let (properties, ret) ← f (t.node node).properties
    return (t.withProperties node properties, ret)

/-- `of_device_enable_path` -/
def ofDeviceEnablePath : NodeTree → CString → Option (NodeTree × Int) := devicePath ofDeviceEnable

/-- `of_device_disable_path` -/
def ofDeviceDisablePath : NodeTree → CString → Option (NodeTree × Int) := devicePath ofDeviceDisable

/-! ## Calls -/

inductive StatusCall
  | enable (path : CString)
  | disable (path : CString)

def StatusCall.path : StatusCall → CString
  | .enable path | .disable path => path

def StatusCall.says : StatusCall → Bool
  | .enable _ => true
  | .disable _ => false

def StatusCall.apply (t : NodeTree) : StatusCall → Option (NodeTree × Int)
  | .enable path => ofDeviceEnablePath t path
  | .disable path => ofDeviceDisablePath t path

/-- The tree behind some calls. -/
def statusCalls : NodeTree → List StatusCall → Option NodeTree
  | t, [] => some t
  | t, call :: calls => do
    let (t, _) ← call.apply t
    statusCalls t calls

/-- The path leads to the node. -/
def NodeTree.Leads (t : NodeTree) (path : CString) (node : Nat) : Prop :=
  ofFindNodeByPathFrom t none path = some (some node)

instance (t : NodeTree) (path : CString) (node : Nat) : Decidable (t.Leads path node) :=
  inferInstanceAs (Decidable (_ = _))

/-- What the last call says that leads to a node. -/
def lastSaid (t : NodeTree) (node : Nat) : List StatusCall → Option Bool
  | [] => none
  | call :: calls => (lastSaid t node calls).or (if t.Leads call.path node then some call.says else none)

/-- `status` occurs at most once. -/
def OneStatus (properties : List Property) : Prop := (properties.filter (·.name = cstr "status")).length ≤ 1

instance (properties : List Property) : Decidable (OneStatus properties) := inferInstanceAs (Decidable (_ ≤ _))

/-! ## One call -/

section
variable {properties : List Property}

theorem OneStatus.second (h : OneStatus properties) : (properties.filter (·.name = cstr "status"))[1]? = none :=
  List.getElem?_eq_none h

theorem OneStatus.write (h : OneStatus properties) (b : Option Bytes) :
    OneStatus (written properties (cstr "status") b) := by
  have hnew := List.length_filter_le (fun p : Property => p.name = cstr "status")
    (b.map (Property.mk (cstr "status"))).toList
  have hone : (b.map (Property.mk (cstr "status"))).toList.length ≤ 1 := by cases b <;> simp
  rw [OneStatus] at h ⊢
  rw [written, List.filter_append, List.length_append, filter_ofDeleteProperty_self, List.length_tail]
  omega

theorem OneStatus.get (h : OneStatus properties) (b : Option Bytes) (n : TreeNode) :
    ofGetProperty ({ n with properties := written properties (cstr "status") b } : TreeNode).device (cstr "status") =
      b := by
  have hfind := @find?_written properties (cstr "status") b
  rw [h.second] at hfind
  exact hfind

end

/-- What a call leaves as the `status`. -/
def StatusCall.value : StatusCall → Option Bytes
  | .enable _ => none
  | .disable _ => some ((cstr "disabled").1 ++ [0])

theorem StatusCall.available (call : StatusCall) {device : DeviceNode}
    (h : ofGetProperty device (cstr "status") = call.value) : ofDeviceIsAvailable device = some call.says := by
  rw [ofDeviceIsAvailable, h]
  cases call with
  | enable _ => rfl
  | disable _ =>
    simp only [StatusCall.value, StatusCall.says]
    decide

/-- What a call does to the properties of its node. -/
def StatusCall.write : StatusCall → List Property → Option (List Property × Int)
  | .enable _ => ofDeviceEnable
  | .disable _ => ofDeviceDisable

theorem StatusCall.apply_devicePath (t : NodeTree) (call : StatusCall) :
    call.apply t = devicePath call.write t call.path := by
  cases call <;> rfl

theorem StatusCall.write_eq (call : StatusCall) (properties : List Property) :
    call.write properties = some (written properties (cstr "status") call.value, 0) := by
  cases call with
  | enable path =>
    rw [StatusCall.write, ofDeviceEnable, StatusCall.value, written, Option.map_none, Option.toList_none,
      List.append_nil]
  | disable path =>
    exact (@PropertyWrite.apply_some properties (cstr "status") (.string (cstr "disabled")) _ rfl).1 (by decide)

section
variable {t : NodeTree}

/-- A call writes to the node that its path leads to, if there is one. -/
theorem StatusCall.apply_eq (t : NodeTree) (call : StatusCall) :
    (∃ node, t.Leads call.path node ∧ call.apply t =
      some (t.withProperties node (written (t.node node).properties (cstr "status") call.value), 0)) ∨
    (∀ node, ¬ t.Leads call.path node) ∧ call.apply t = some (t, -ENODEV) := by
  obtain ⟨found, hfound⟩ := @ofFindNodeByPathFrom_total t none call.path
  rw [call.apply_devicePath, devicePath, hfound]
  cases found with
  | none =>
    refine .inr ⟨fun node hleads => ?_, rfl⟩
    rw [NodeTree.Leads, hfound] at hleads
    cases hleads
  | some node =>
    refine .inl ⟨node, hfound, ?_⟩
    simp only [Option.bind_eq_bind, Option.bind_some, call.write_eq]
    rfl

theorem withProperties_node (id : Nat) (properties : List Property) (x : Nat) :
    (t.withProperties id properties).node x =
      if x = id then { t.node id with properties := properties } else t.node x := modify_node _ x

theorem withProperties_shape (id : Nat) (properties : List Property) (x : Nat) :
    ((t.withProperties id properties).node x).name = (t.node x).name ∧
      ((t.withProperties id properties).node x).children = (t.node x).children := by
  rw [withProperties_node]
  split
  · next hx => exact hx ▸ ⟨rfl, rfl⟩
  · exact ⟨rfl, rfl⟩

theorem findPathLoop_same {t' : NodeTree}
    (h : ∀ x, (t'.node x).name = (t.node x).name ∧ (t'.node x).children = (t.node x).children) :
    ∀ {fuel start : Nat} {p : Bytes}, findPathLoop t' fuel start p = findPathLoop t fuel start p
  | 0, _, _ => rfl
  | fuel + 1, start, p => by
    have hchild : ∀ name, ofGetChildByName t' start name = ofGetChildByName t start name := by
      intro name
      simp only [ofGetChildByName, (h _).1, (h _).2]
    rw [findPathLoop, findPathLoop, hchild]
    split
    · rfl
    split
    · rfl
    split
    · rfl
    · exact findPathLoop_same h

theorem leads_withProperties (id : Nat) (properties : List Property) (path : CString) (x : Nat) :
    (t.withProperties id properties).Leads path x ↔ t.Leads path x := by
  have hroot : (t.withProperties id properties).rootNode = t.rootNode := rfl
  simp only [NodeTree.Leads, ofFindNodeByPathFrom, hroot, findPathLoop_same (withProperties_shape id properties)]

theorem NodeTree.Leads.unique {path : CString} {x y : Nat} (h : t.Leads path x) (h' : t.Leads path y) : x = y :=
  Option.some.inj (Option.some.inj (h.symm.trans h'))

theorem StatusCall.step (t : NodeTree) (call : StatusCall) : ∃ t' ret, call.apply t = some (t', ret) ∧
    (∀ path x, t'.Leads path x ↔ t.Leads path x) ∧ (∀ x, (t'.node x).children = (t.node x).children) ∧
    ∀ x, OneStatus (t.node x).properties → OneStatus (t'.node x).properties ∧
      ofDeviceIsAvailable (t'.node x).device =
        if t.Leads call.path x then some call.says else ofDeviceIsAvailable (t.node x).device := by
  obtain ⟨node, hleads, heq⟩ | ⟨hnone, heq⟩ := call.apply_eq t
  · refine ⟨_, _, heq, leads_withProperties node _, fun x => (withProperties_shape node _ x).2, fun x hone => ?_⟩
    rw [withProperties_node]
    by_cases hx : x = node
    · subst hx
      rw [if_pos rfl, if_pos hleads]
      exact ⟨hone.write _, call.available (hone.get _ _)⟩
    · rw [if_neg hx, if_neg fun h => hx (h.unique hleads)]
      exact ⟨hone, rfl⟩
  · refine ⟨t, _, heq, fun _ _ => Iff.rfl, fun _ => rfl, fun x hone => ?_⟩
    rw [if_neg (hnone x)]
    exact ⟨hone, rfl⟩

/-! ## All calls -/

theorem lastSaid_congr {t' : NodeTree} (h : ∀ path x, t'.Leads path x ↔ t.Leads path x) (x : Nat) :
    ∀ (calls : List StatusCall), lastSaid t' x calls = lastSaid t x calls
  | [] => rfl
  | call :: calls => by
    rw [lastSaid, lastSaid, lastSaid_congr h x calls]
    simp only [h]

/-- The last call decides. -/
theorem statusCalls_available : ∀ (calls : List StatusCall) (t : NodeTree), ∃ t', statusCalls t calls = some t' ∧
    (∀ x, (t'.node x).children = (t.node x).children) ∧ ∀ x, OneStatus (t.node x).properties →
      ofDeviceIsAvailable (t'.node x).device = (lastSaid t x calls).or (ofDeviceIsAvailable (t.node x).device)
  | [], t => ⟨t, rfl, fun _ => rfl, fun _ _ => rfl⟩
  | call :: calls, t => by
    obtain ⟨t₁, ret, hstep, hleads, hchildren, havailable⟩ := call.step t
    obtain ⟨t', hcalls, hchildren', havailable'⟩ := statusCalls_available calls t₁
    refine ⟨t', ?_, fun x => (hchildren' x).trans (hchildren x), fun x hone => ?_⟩
    · rw [statusCalls, hstep]
      exact hcalls
    · obtain ⟨hone₁, hnow⟩ := havailable x hone
      rw [havailable' x hone₁, hnow, lastSaid_congr hleads, lastSaid]
      cases lastSaid t x calls with
      | some said => rfl
      | none => by_cases h : t.Leads call.path x <;> simp [h]

/-! ## Children -/

theorem forEachAvailableChild_eq {parent : Nat} (hnodup : (t.node parent).children.Nodup) :
    forEachAvailableChild t parent =
      if ∀ x ∈ (t.node parent).children, ofDeviceIsAvailable (t.node x).device ≠ none then
        some ((t.node parent).children.filter fun x => ofDeviceIsAvailable (t.node x).device = some true)
      else none := by
  refine forEachFound_eq rfl (fun {before after x} heq => ?_) (Nat.lt_succ_self _)
  have hx : x ∉ before := by
    rw [heq, List.nodup_append] at hnodup
    exact fun hmem => hnodup.2.2 x hmem x List.mem_cons_self rfl
  have hdrop : (t.node parent).children.dropWhile (· ≠ x) = x :: after := by
    rw [heq, List.dropWhile_append_of_pos fun y hy => by simpa using ne_of_mem_of_not_mem hy hx,
      List.dropWhile_cons_of_neg (by simp)]
  rw [ofGetNextAvailableChild, hdrop]
  rfl

theorem countAvailable_eq : ∀ {children : List Nat} {num : Int},
    (∀ x ∈ children, ofDeviceIsAvailable (t.node x).device ≠ none) → countAvailable t children num =
      some (num + (children.filter fun x => ofDeviceIsAvailable (t.node x).device = some true).length)
  | [], num, _ => by simp [countAvailable]
  | child :: children, num, h => by
    rw [List.forall_mem_cons] at h
    rw [countAvailable]
    cases havailable : ofDeviceIsAvailable (t.node child).device with
    | none => exact absurd havailable h.1
    | some available =>
      cases available with
      | true =>
        rw [List.filter_cons_of_pos (by simpa using havailable), List.length_cons]
        simp only [Option.bind_eq_bind, Option.bind_some, if_true, countAvailable_eq h.2]
        congr 1
        omega
      | false =>
        rw [List.filter_cons_of_neg (by simp [havailable])]
        simp [countAvailable_eq h.2]

end

/-- **A node is available as the last call said** that led to it, or else as it
was, and the loop over the available children of a node goes over exactly
those, in their order, and as many are counted of all its children. -/
theorem available_as_said {root : Nat} {ops : List TreeOp} {t : NodeTree} (h : (treeSystem root).Run ops t)
    (hone : ∀ x ∈ t.live, OneStatus (t.node x).properties)
    (hread : ∀ x ∈ t.live, ofDeviceIsAvailable (t.node x).device ≠ none) (calls : List StatusCall) :
    ∃ t', statusCalls t calls = some t' ∧
      (∀ x ∈ t.live, ofDeviceIsAvailable (t'.node x).device =
        (lastSaid t x calls).or (ofDeviceIsAvailable (t.node x).device)) ∧
      ∀ parent ∈ t.live, ∃ available, forEachAvailableChild t' parent = some available ∧
        available = (t.node parent).children.filter (fun x => ofDeviceIsAvailable (t'.node x).device = some true) ∧
        ofGetAvailableChildCount t' (some parent) = some (available.length : Int) ∧
        (available.length : Int) ≤ ofGetChildCount t' (some parent) := by
  obtain ⟨order, hwf⟩ := (treeSystem_invariant root).run h
  obtain ⟨t', hcalls, hchildren, havailable⟩ := statusCalls_available calls t
  refine ⟨t', hcalls, fun x hx => havailable x (hone x hx), fun parent hparent => ?_⟩
  have hreadable : ∀ x ∈ (t'.node parent).children, ofDeviceIsAvailable (t'.node x).device ≠ none := by
    intro x hx
    rw [hchildren] at hx
    have hlive := hwf.live_of_child hparent hx
    rw [havailable x (hone x hlive)]
    cases lastSaid t x calls with
    | none => exact hread x hlive
    | some said => simp
  have hnodup : (t'.node parent).children.Nodup := by
    rw [hchildren]
    exact hwf.childrenNodup parent ((hwf.live parent).1 hparent)
  refine ⟨_, (forEachAvailableChild_eq hnodup).trans (if_pos hreadable), by rw [hchildren], ?_, ?_⟩
  · rw [ofGetAvailableChildCount, countAvailable_eq hreadable, Int.zero_add]
  · rw [ofGetChildCount]
    exact_mod_cast List.length_filter_le _ _

theorem available_as_said_smallTree : ∃ t',
    statusCalls smallTree [.disable (cstr "/a"), .disable (cstr "/b"), .enable (cstr "/a")] = some t' ∧
      forEachAvailableChild t' 0 = some [1] := by
  obtain ⟨t', hcalls, havailable, hloop⟩ := available_as_said smallTree_run (by decide) (by decide)
    [.disable (cstr "/a"), .disable (cstr "/b"), .enable (cstr "/a")]
  obtain ⟨available, hfound, hfilter, -⟩ := hloop 0 (by decide)
  have ha : ofDeviceIsAvailable (t'.node 1).device = some true := (havailable 1 (by decide)).trans (by decide)
  have hb : ofDeviceIsAvailable (t'.node 2).device = some false := (havailable 2 (by decide)).trans (by decide)
  have hchildren : (smallTree.node 0).children = [1, 2] := by decide
  refine ⟨t', hcalls, hfound.trans ?_⟩
  rw [hfilter, hchildren, List.filter_cons_of_pos (by simp [ha]), List.filter_cons_of_neg (by simp [hb]),
    List.filter_nil]

end DtUtils
