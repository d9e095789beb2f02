/-
What `state_to_node` writes of the variables, as a later import of the same
description reads it: every number and MAC address as it was, and a string as
its copy has it (`VarData.reloaded`).
-/
import DtUtils.FdtRoundTrip
import DtUtils.OwnNames
import DtUtils.PropertyWrites
import DtUtils.ShortCut

namespace DtUtils
open Lib

/-! ## The properties of one variable -/

/-- The node that a variable is written to, but for its phandle. -/
def exportedNode (name : CString) (phandle : UInt32) (vtype : VariableType) (sv : StateVariable)
    (properties : List Property) (children : List DeviceNode) : DeviceNode :=
  .node name phandle (stringProperty "type" vtype.typeName ::
    ⟨cstr "reg", beBytes 4 sv.start.toNat ++ beBytes 4 sv.size⟩ :: properties) children

theorem ofPropertyReadU32_eq {np : DeviceNode} {name : CString} {p : Property} {v : UInt32}
    (h : ofFindProperty np name = some p) (hv : p.value = beBytes 4 v.toNat) : ofPropertyReadU32 np name = .ok v := by
  have hlen : ¬ p.value.length < 4 := by rw [hv, beBytes_length]; omega
  simp only [ofPropertyReadU32, ofFindPropertyValueOfSize, h]
  rw [if_neg hlen, hv]
  exact congrArg Except.ok (cell_beBytes v)

theorem ofPropertyReadString_eq {np : DeviceNode} {name : CString} {p : Property} {s : CString}
    (h : ofFindProperty np name = some p) (hv : p.value = s.1 ++ [0]) : ofPropertyReadString np name = .ok s := by
  simp only [ofPropertyReadString, h, hv]
  rw [if_pos (by simp), CString.of_terminated]

theorem ofPropertyReadString_none {np : DeviceNode} {name : CString} (h : ofFindProperty np name = none) :
    ofPropertyReadString np name = .error (-EINVAL) := by
  simp only [ofPropertyReadString, h]

section
variable {name : CString} {phandle : UInt32} {vtype : VariableType} {sv : StateVariable} {properties : List Property}
  {children : List DeviceNode}

theorem exportedNode_type :
    ofPropertyReadString (exportedNode name phandle vtype sv properties children) (cstr "type") = .ok vtype.typeName :=
  ofPropertyReadString_eq (p := stringProperty "type" vtype.typeName) rfl rfl

theorem exportedNode_find {prop : CString} (htype : prop ≠ cstr "type") (hreg : prop ≠ cstr "reg") :
    ofFindProperty (exportedNode name phandle vtype sv properties children) prop =
      properties.find? (·.name = prop) := by
  have htype' : ¬ (stringProperty "type" vtype.typeName).name = prop := fun h => htype h.symm
  simp only [ofFindProperty, exportedNode, DeviceNode.properties, List.find?_cons, decide_eq_false htype',
    decide_eq_false hreg.symm]

theorem stateUint32Import_export {v dflt : UInt32} (d₀ : UInt32) :
    (stateUint32Import (exportedNode name phandle vtype sv (stateUint32Export v dflt) children) d₀).1 = v := by
  have hvalue : ofPropertyReadU32 (exportedNode name phandle vtype sv (stateUint32Export v dflt) children)
      (cstr "value") = .ok v := by
    refine ofPropertyReadU32_eq (p := u32Property "value" v) ?_ rfl
    rw [exportedNode_find (by decide) (by decide), stateUint32Export]
    split <;> rfl
  simp only [stateUint32Import, hvalue]
  rfl

theorem stateEnum32Import_export {v dflt : UInt32} {names : List CString} (v₀ d₀ : UInt32) :
    let r := stateEnum32Import (exportedNode name phandle vtype sv (stateEnum32Export v dflt names) children) v₀ d₀
    r.1 = v ∧ r.2.2 = 0 := by
  have hvalue : ofFindProperty (exportedNode name phandle vtype sv (stateEnum32Export v dflt names) children)
      (cstr "value") = some (u32Property "value" v) := by
    rw [exportedNode_find (by decide) (by decide), stateEnum32Export]
    split <;> rfl
  have hdefault : (ofFindProperty (exportedNode name phandle vtype sv (stateEnum32Export v dflt names) children)
      (cstr "default")).any (·.value.length ≠ 4) = false := by
    rw [exportedNode_find (by decide) (by decide), stateEnum32Export]
    split <;> rfl
  simp only [stateEnum32Import, hvalue, hdefault]
  rw [if_neg (by simp [u32Property])]
  exact ⟨cell_beBytes v, rfl⟩

theorem stateMacImport_export {v dflt : Mac} (d₀ : Mac) :
    (stateMacImport (exportedNode name phandle vtype sv (stateMacExport v dflt) children) d₀).1 = v := by
  have hvalue : ofPropertyReadMac (exportedNode name phandle vtype sv (stateMacExport v dflt) children)
      (cstr "value") = .ok v := by
    have hfind : ofFindProperty (exportedNode name phandle vtype sv (stateMacExport v dflt) children)
        (cstr "value") = some ⟨cstr "value", v.1⟩ := by
      rw [exportedNode_find (by decide) (by decide), stateMacExport]
      split <;> rfl
    have htake : v.1.take 6 = v.1 := List.take_of_length_le (by rw [v.2])
    have hlen : ¬ v.1.length < 6 := by rw [v.2]; omega
    simp only [ofPropertyReadMac, ofFindPropertyValueOfSize, hfind, if_neg hlen, htake]
    rw [dif_pos v.2]
  simp only [stateMacImport, hvalue]
  rfl

/-- What an import of a string's export reads: the copy, or else the default, or
else what was there. -/
def StateString.reloaded (string₀ string : StateString) : CString :=
  match string.value, string₀.valueDefault with
  | some value, _ => value
  | none, .str s => s
  | none, _ => CString.of string₀.raw

/-- The state of a string that a description sets up. -/
structure StateString.Fresh (string : StateString) : Prop where
  value : string.value = none
  valueDefault : string.valueDefault = .null ∨ ∃ s, string.valueDefault = .str s ∧ s.1.length ≤ string.raw.length

theorem stateStringImportValue_copies {node : DeviceNode} {string : StateString} {dflt : Option CString} {s : CString}
    (h : ((ofPropertyReadString node (cstr "value")).toOption <|> dflt) = some s)
    (hroom : s.1.length ≤ string.raw.length) :
    (stateStringImportValue node string dflt).2 = 0 ∧
      CString.of (stateStringImportValue node string dflt).1.raw = s := by
  simp only [stateStringImportValue, h]
  exact stateStringCopyToRaw_get hroom

theorem stateStringImport_export {string₀ string : StateString} (hfresh : string₀.Fresh)
    (hlen : string.raw.length = string₀.raw.length) (hdefault : string.valueDefault = string₀.valueDefault)
    (hvalue : ∀ v ∈ string.value, v.1.length ≤ string.raw.length)
    (hexport : stateStringExport string = some properties) :
    ∃ out, stateStringImport (exportedNode name phandle vtype sv properties children) string₀ = some (out, 0) ∧
      CString.of out.raw = string₀.reloaded string := by
  obtain ⟨node, hnode⟩ : ∃ node, node = exportedNode name phandle vtype sv properties children := ⟨_, rfl⟩
  have hread (prop : CString) (htype : prop ≠ cstr "type") (hreg : prop ≠ cstr "reg") :
      ofFindProperty node prop = properties.find? (·.name = prop) := by
    rw [hnode]
    exact exportedNode_find htype hreg
  rw [← hnode]
  rw [stateStringExport, hdefault] at hexport
  rcases hfresh.valueDefault with hnull | ⟨s, hs, hroom⟩
  · rw [hnull] at hexport
    obtain rfl := Option.some.inj hexport
    have hno : ofPropertyReadString node (cstr "default") = .error (-EINVAL) := by
      refine ofPropertyReadString_none ?_
      rw [hread _ (by decide) (by decide)]
      cases string.value <;> rfl
    simp only [stateStringImport, stateStringImportDefault, hno, hnull]
    cases hv : string.value with
    | none =>
      have hnone : ofPropertyReadString node (cstr "value") = .error (-EINVAL) := by
        refine ofPropertyReadString_none ?_
        rw [hread _ (by decide) (by decide), hv]
        rfl
      refine ⟨string₀, ?_, by rw [StateString.reloaded, hv, hnull]⟩
      simp only [stateStringImportValue, hnone]
      rfl
    | some v =>
      have hsome : ofPropertyReadString node (cstr "value") = .ok v := by
        refine ofPropertyReadString_eq (p := stringProperty "value" v) ?_ rfl
        rw [hread _ (by decide) (by decide), hv]
        rfl
      have hcopy := @stateStringImportValue_copies node string₀ none v (by rw [hsome]; rfl)
        (hlen ▸ hvalue v (by simp [hv]))
      exact ⟨_, congrArg some (Prod.ext rfl hcopy.1), hcopy.2.trans (by rw [StateString.reloaded, hv])⟩
  · rw [hs] at hexport
    obtain rfl := Option.some.inj hexport
    have hdflt : ofPropertyReadString node (cstr "default") = .ok s := by
      refine ofPropertyReadString_eq (p := stringProperty "default" s) ?_ rfl
      rw [hread _ (by decide) (by decide)]
      rfl
    simp only [stateStringImport, stateStringImportDefault, hdflt]
    rw [if_neg (by omega)]
    cases hv : string.value with
    | none =>
      have hnone : ofPropertyReadString node (cstr "value") = .error (-EINVAL) := by
        refine ofPropertyReadString_none ?_
        rw [hread _ (by decide) (by decide), hv]
        rfl
      have hcopy := @stateStringImportValue_copies node { string₀ with valueDefault := .str s } (some s) s
        (by rw [hnone]; rfl) hroom
      exact ⟨_, congrArg some (Prod.ext rfl hcopy.1), hcopy.2.trans (by rw [StateString.reloaded, hv, hs])⟩
    | some v =>
      have hsome : ofPropertyReadString node (cstr "value") = .ok v := by
        refine ofPropertyReadString_eq (p := stringProperty "value" v) ?_ rfl
        rw [hread _ (by decide) (by decide), hv]
        rfl
      have hcopy := @stateStringImportValue_copies node { string₀ with valueDefault := .str s } (some s) v
        (by rw [hsome]; rfl) (hlen ▸ hvalue v (by simp [hv]))
      exact ⟨_, congrArg some (Prod.ext rfl hcopy.1), hcopy.2.trans (by rw [StateString.reloaded, hv])⟩

end

/-! ## One variable -/

/-- What an import of a variable's export reads. -/
def VarData.reloaded : VarData → VarData → Option CString
  | .string s₀, .string s => some (s₀.reloaded s)
  | _, data => data.get

/-- The value of a variable that was set up as `data₀`, between two calls. -/
inductive VarData.Later : VarData → VarData → Prop
  | uint8 {v dflt v' dflt'} : Later (.uint8 v dflt) (.uint8 v' dflt')
  | uint32 {v dflt v' dflt'} : Later (.uint32 v dflt) (.uint32 v' dflt')
  | enum32 {v dflt v' dflt' names} : Later (.enum32 v dflt names) (.enum32 v' dflt' names)
  | mac {v dflt v' dflt'} : Later (.mac v dflt) (.mac v' dflt')
  | string {s₀ s} : s.raw.length = s₀.raw.length → (s.valueDefault = s₀.valueDefault ∨ s.valueDefault = .freed) →
      (∀ v ∈ s.value, v.1.length ≤ s.raw.length) → Later (.string s₀) (.string s)

theorem VarData.Later.sameKind {a b : VarData} (h : a.Later b) : a.SameKind b := by
  cases h with
  | string hlen _ _ => exact .string hlen.symm
  | _ => constructor

def VarData.Fresh : VarData → Prop
  | .string s => s.Fresh
  | _ => True

/-- **A variable's export is imported** into a variable of a new state, with
the value that `reloaded` says. -/
theorem VariableType.import_export {name : CString} {phandle : UInt32} {sv : StateVariable} {children : List DeviceNode}
    {data₀ data : VarData} {properties : List Property} (hfresh : data₀.Fresh) (hlater : data₀.Later data)
    (hexport : data.type.export data = some properties) :
    ∃ out, data.type.import (exportedNode name phandle data.type sv properties children) data₀ = some (out, 0) ∧
      out.get = data₀.reloaded data := by
  cases hlater with
  | uint8 =>
    obtain rfl := Option.some.inj hexport
    exact ⟨_, rfl, congrArg (fun v => some (decimal v)) (stateUint32Import_export _)⟩
  | uint32 =>
    obtain rfl := Option.some.inj hexport
    exact ⟨_, rfl, congrArg (fun v => some (decimal v)) (stateUint32Import_export _)⟩
  | @enum32 v₀ dflt₀ v dflt names =>
    obtain rfl := Option.some.inj hexport
    obtain ⟨hvalue, hret⟩ := @stateEnum32Import_export name phandle .enum32 sv children v dflt names v₀ dflt₀
    exact ⟨_, congrArg some (Prod.ext rfl hret), congrArg (fun v : UInt32 => names[v.toNat]?) hvalue⟩
  | mac =>
    obtain rfl := Option.some.inj hexport
    exact ⟨_, rfl, congrArg (fun v => some (macString v)) (stateMacImport_export _)⟩
  | @string string₀ string hlen hdefault hvalue =>
    have hkept : string.valueDefault = string₀.valueDefault := by
      rcases hdefault with hkept | hfreed
      · exact hkept
      · -- A default that was freed is not exported.
        have hnone : stateStringExport string = none := by simp only [stateStringExport, hfreed]
        rw [VarData.type, VariableType.export, hnone] at hexport
        cases hexport
    obtain ⟨out, himport, hread⟩ := @stateStringImport_export name phandle .string sv properties children string₀ string
      hfresh hlen hkept hvalue hexport
    refine ⟨.string out, ?_, congrArg some hread⟩
    simp only [VarData.type, VariableType.import, himport, Option.map_some]

/-! ## The tree -/

/-- The node `v'` is written for the node `v` of the description. -/
structure Exported (vars : List StateVariable) (v v' : CString × DeviceNode) : Prop where
  path : v'.1 = v.1
  name : v'.2.name = v.2.name
  children : v'.2.children.isEmpty = v.2.children.isEmpty
  typed : ∀ typeName, ofPropertyReadString v.2 (cstr "type") = .ok typeName →
    ∀ sv, stateFindVar vars v.1 = some sv → ∃ vtype properties, stateFindTypeByName typeName = some vtype ∧
      vtype.export sv.data = some properties ∧
      ∃ phandle, v'.2 = exportedNode v.2.name phandle vtype sv properties v'.2.children
  untyped : ∀ e, ofPropertyReadString v.2 (cstr "type") = .error e → v'.2.properties = []
  roomy : ∀ p ∈ v'.2.properties, RoomyName p.name

instance (name : CString) : Decidable (RoomyName name) := inferInstanceAs (Decidable (_ ≤ _))

theorem VariableType.export_roomy {vtype : VariableType} {data : VarData} {properties : List Property}
    (h : vtype.export data = some properties) : ∀ p ∈ properties, RoomyName p.name := by
  have hdefault {c : Prop} [Decidable c] {p : Property} {ps : List Property} (hp : p.name = cstr "default")
      (hps : ∀ q ∈ ps, RoomyName q.name) : ∀ q ∈ (if c then [p] else []) ++ ps, RoomyName q.name := by
    intro q hq
    rcases List.mem_append.1 hq with hq | hq
    · split at hq
      · rw [List.mem_singleton.1 hq, hp]
        decide
      · cases hq
    · exact hps q hq
  have hvalue {p : Property} (hp : p.name = cstr "value") : RoomyName p.name := by
    rw [hp]
    decide
  have hnumber (v dflt : UInt32) : ∀ p ∈ stateUint32Export v dflt, RoomyName p.name :=
    hdefault rfl (List.forall_mem_singleton.2 (hvalue rfl))
  cases data with
  | uint8 v dflt =>
    cases vtype <;> cases h <;> exact hnumber v dflt
  | uint32 v dflt =>
    cases vtype <;> cases h <;> exact hnumber v dflt
  | enum32 v dflt names =>
    have henum : ∀ p ∈ stateEnum32Export v dflt names, RoomyName p.name :=
      hdefault rfl (List.forall_mem_cons.2 ⟨show RoomyName (cstr "names") by decide,
        List.forall_mem_singleton.2 (hvalue rfl)⟩)
    cases vtype <;> cases h <;> first | exact hnumber v dflt | exact henum
  | mac v dflt =>
    have hmac : ∀ p ∈ stateMacExport v dflt, RoomyName p.name :=
      hdefault rfl (List.forall_mem_singleton.2 (hvalue rfl))
    cases vtype <;> cases h <;> first | exact hnumber _ _ | exact hmac
  | string s =>
    have hcopy : ∀ p ∈ (s.value.map (stringProperty "value")).toList, RoomyName p.name := by
      cases s.value with
      | none => simp
      | some v => exact List.forall_mem_singleton.2 (hvalue rfl)
    cases vtype <;> try cases h
    change stateStringExport s = some properties at h
    rw [stateStringExport] at h
    split at h <;> cases h
    · exact hcopy
    · exact List.forall_mem_cons.2 ⟨show RoomyName (cstr "default") by decide, hcopy⟩
    · exact List.forall_mem_cons.2 ⟨show RoomyName (cstr "default") by decide, hcopy⟩

section
variable {vars : List StateVariable}

theorem stateConvertVariableToNode_exported {name : CString} {node new : DeviceNode} {children : List DeviceNode}
    (h : stateConvertVariableToNode vars name node children = some (.ok new))
    (hchildren : children.isEmpty = node.children.isEmpty) :
    Exported vars (name, node) (name, new) ∧ new = .node node.name 0 new.properties children := by
  rw [stateConvertVariableToNode] at h
  split at h
  · next e htype =>
    split at h
    · cases h
      refine ⟨⟨rfl, rfl, hchildren, fun _ ht => ?_, fun _ _ => rfl, fun _ hp => by cases hp⟩, rfl⟩
      rw [htype] at ht
      cases ht
    · cases h
  · next typeName htype =>
    have huntyped : ∀ e, ofPropertyReadString node (cstr "type") = .error e → new.properties = [] := by
      intro e he
      rw [htype] at he
      cases he
    split at h
    · cases h
    · next vtype hfind =>
      split at h
      · next hnone =>
        cases h
        refine ⟨⟨rfl, rfl, hchildren, fun _ _ sv hsv => ?_, huntyped, fun _ hp => by cases hp⟩, rfl⟩
        rw [hnone] at hsv
        cases hsv
      · next sv hsome =>
        obtain ⟨properties, hproperties, heq⟩ := Option.map_eq_some_iff.1 h
        cases heq
        simp only [variableProperties, Option.bind_eq_bind, Option.bind_eq_some_iff] at hproperties
        obtain ⟨exported, hexport, heq⟩ := hproperties
        obtain rfl := Option.some.inj heq
        have hroomy : ∀ p ∈ (stringProperty "type" vtype.typeName ::
            ⟨cstr "reg", beBytes 4 sv.start.toNat ++ beBytes 4 sv.size⟩ :: exported), RoomyName p.name :=
          List.forall_mem_cons.2 ⟨show RoomyName (cstr "type") by decide,
            List.forall_mem_cons.2 ⟨show RoomyName (cstr "reg") by decide, VariableType.export_roomy hexport⟩⟩
        refine ⟨⟨rfl, rfl, hchildren, fun _ ht sv' hsv => ?_, huntyped, hroomy⟩, rfl⟩
        rw [htype] at ht
        cases ht
        rw [hsome] at hsv
        cases hsv
        exact ⟨vtype, exported, hfind, hexport, 0, rfl⟩

mutual
theorem stateConvertNodeToNode_exported {parentName : CString} : ∀ {node new : DeviceNode},
    stateConvertNodeToNode vars parentName node = some (.ok new) →
      List.Forall₂ (Exported vars) (visits parentName node) (visits parentName new)
  | .node nodeName phandle properties children, new, h => by
    simp only [stateConvertNodeToNode, Option.bind_eq_bind, Option.bind_eq_some_iff] at h
    obtain ⟨below, hbelow, h⟩ := h
    cases below with
    | error e => cases h
    | ok news =>
      obtain ⟨hall, hempty⟩ := stateConvertChildrenToNode_exported hbelow
      obtain ⟨hnode, hnew⟩ := stateConvertVariableToNode_exported h hempty
      rw [hnew] at hnode ⊢
      exact List.rel_append hall (.cons hnode .nil)

/-- Each node that is visited has its node in the new tree. -/
theorem stateConvertChildrenToNode_exported {name : CString} : ∀ {nodes news : List DeviceNode},
    stateConvertChildrenToNode vars name nodes = some (.ok news) →
      List.Forall₂ (Exported vars) (visitsBelow name nodes) (visitsBelow name news) ∧ news.isEmpty = nodes.isEmpty
  | [], _, h => by
    cases h
    exact ⟨.nil, rfl⟩
  | node :: nodes, news, h => by
    simp only [stateConvertChildrenToNode, Option.bind_eq_bind, Option.bind_eq_some_iff] at h
    obtain ⟨first, hfirst, h⟩ := h
    cases first with
    | error e => cases h
    | ok new =>
      simp only [Option.bind_eq_some_iff] at h
      obtain ⟨rest, hrest, h⟩ := h
      cases rest with
      | error e => cases h
      | ok news =>
        cases h
        exact ⟨List.rel_append (stateConvertNodeToNode_exported hfirst) (stateConvertChildrenToNode_exported hrest).1,
          rfl⟩
end

/-! ## What comes back of the tree -/

theorem DeviceNode.reread_eq (node : DeviceNode) :
    node.reread = .node node.name (phandleOf node.properties) node.properties (rereadNodes node.children) := by
  cases node
  rfl

mutual
theorem visits_reread {parentName : CString} : ∀ node : DeviceNode,
    visits parentName node.reread = (visits parentName node).map fun v => (v.1, v.2.reread)
  | .node nodeName phandle properties children => by
    rw [DeviceNode.reread, visits, visits, visitsBelow_reread children, List.map_append]
    rfl

theorem visitsBelow_reread {name : CString} : ∀ nodes : List DeviceNode,
    visitsBelow name (rereadNodes nodes) = (visitsBelow name nodes).map fun v => (v.1, v.2.reread)
  | [] => rfl
  | node :: nodes => by
    rw [rereadNodes, visitsBelow, visitsBelow, visits_reread node, visitsBelow_reread nodes, List.map_append]
end

theorem Exported.reread {v v' : CString × DeviceNode} (h : Exported vars v v') :
    Exported vars v (v'.1, v'.2.reread) where
  path := h.path
  name := by
    rw [DeviceNode.reread_eq]
    exact h.name
  children := by
    rw [DeviceNode.reread_eq, ← h.children]
    show (rereadNodes v'.2.children).isEmpty = _
    cases v'.2.children <;> rfl
  typed := by
    intro typeName htype sv hsv
    obtain ⟨vtype, properties, hfind, hexport, phandle, hnode⟩ := h.typed typeName htype sv hsv
    refine ⟨vtype, properties, hfind, hexport, phandleOf v'.2.properties, ?_⟩
    rw [DeviceNode.reread_eq, hnode]
    rfl
  untyped := by
    intro e he
    rw [DeviceNode.reread_eq]
    exact h.untyped e he
  roomy := by
    rw [DeviceNode.reread_eq]
    exact h.roomy

mutual
theorem all_of_visits {P : DeviceNode → Prop} {parentName : CString} : ∀ {node : DeviceNode},
    (∀ v ∈ visits parentName node, P v.2) → node.All P
  | .node nodeName phandle properties children, h => by
    rw [visits] at h
    exact ⟨h _ (List.mem_append_right _ List.mem_cons_self),
      allNodes_of_visits fun v hv => h v (List.mem_append_left _ hv)⟩

theorem allNodes_of_visits {P : DeviceNode → Prop} {name : CString} : ∀ {nodes : List DeviceNode},
    (∀ v ∈ visitsBelow name nodes, P v.2) → allNodes P nodes
  | [], _ => trivial
  | node :: nodes, h => by
    rw [visitsBelow] at h
    exact ⟨all_of_visits fun v hv => h v (List.mem_append_left _ hv),
      allNodes_of_visits fun v hv => h v (List.mem_append_right _ hv)⟩
end

end

end DtUtils
