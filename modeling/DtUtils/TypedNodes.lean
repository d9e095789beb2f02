/-
The nodes of a stored tree by the variables that they come to. Where they have
the types of their variables, an import leaves what the nodes say, one after
the other: their value, or else the last default (`convertVisits_told`).
-/
import DtUtils.DtbImport
import DtUtils.Setters

namespace DtUtils
open Lib

/-! ## Nodes and variables -/

/-- The type that a node names. -/
def DeviceNode.variableType (node : DeviceNode) : Option VariableType :=
  (ofPropertyReadString node (cstr "type")).toOption.bind stateFindTypeByName

theorem DeviceNode.variableType_eq {node : DeviceNode} {typeName : CString} {vtype : VariableType}
    (ht : ofPropertyReadString node (cstr "type") = .ok typeName) (hfind : stateFindTypeByName typeName = some vtype) :
    node.variableType = some vtype := by
  rw [variableType, ht]
  exact hfind

/-- The nodes with a type that come to this name. -/
def nodesNamed (name : CString) (vs : List (CString × DeviceNode)) : List DeviceNode :=
  (vs.filter fun v => v.1 = name ∧ v.2.variableType.isSome).map Prod.snd

/-- Where a node comes to a variable, its type agrees with it. -/
def TypesAgree (vars : List StateVariable) (vs : List (CString × DeviceNode)) : Prop :=
  ∀ v ∈ vs, ∀ vtype ∈ v.2.variableType, ∀ sv ∈ stateFindVar vars v.1, vtype.agrees sv.data

instance (vars : List StateVariable) (vs : List (CString × DeviceNode)) : Decidable (TypesAgree vars vs) :=
  inferInstanceAs (Decidable (∀ v ∈ vs, ∀ vtype ∈ v.2.variableType, ∀ sv ∈ stateFindVar vars v.1, vtype.agrees sv.data))

theorem nodesNamed_cons_self {name : CString} {node : DeviceNode} {vtype : VariableType}
    (h : node.variableType = some vtype) (vs : List (CString × DeviceNode)) :
    nodesNamed name ((name, node) :: vs) = node :: nodesNamed name vs := by
  simp [nodesNamed, h]

theorem nodesNamed_cons_of_ne {name name' : CString} (h : name' ≠ name) (node : DeviceNode)
    (vs : List (CString × DeviceNode)) : nodesNamed name ((name', node) :: vs) = nodesNamed name vs := by
  simp [nodesNamed, h]

theorem nodesNamed_cons_untyped {node : DeviceNode} (h : node.variableType = none) (name name' : CString)
    (vs : List (CString × DeviceNode)) : nodesNamed name ((name', node) :: vs) = nodesNamed name vs := by
  simp [nodesNamed, h]

/-- The nodes of one name are not among those of the others. -/
theorem nodesNamed_filter {name name' : CString} (h : name' ≠ name) (vs : List (CString × DeviceNode)) :
    nodesNamed name (vs.filter fun v => v.1 ≠ name') = nodesNamed name vs := by
  rw [nodesNamed, nodesNamed, List.filter_filter]
  congr 1
  refine List.filter_congr fun v _ => ?_
  by_cases hv : v.1 = name
  · simp [hv, Ne.symm h]
  · simp [hv]

theorem nodesNamed_filter_self (name : CString) (vs : List (CString × DeviceNode)) :
    nodesNamed name (vs.filter fun v => v.1 ≠ name) = [] := by
  simp only [nodesNamed, List.map_eq_nil_iff, List.filter_eq_nil_iff, List.mem_filter, decide_eq_true_eq]
  exact fun v hv h => hv.2 h.1

theorem VariableType.agrees_sameKind {vtype : VariableType} {d d' : VarData} (h : d.SameKind d') :
    vtype.agrees d' = vtype.agrees d := by
  cases h <;> cases vtype <;> rfl

theorem VariableType.agrees_type (d : VarData) : d.type.agrees d = true := by
  cases d <;> rfl

theorem stateFindVar_forall₂ {R : StateVariable → StateVariable → Prop} {l m : List StateVariable}
    (hname : ∀ a b, R a b → b.name = a.name) (h : List.Forall₂ R l m) (name : CString) :
    (stateFindVar l name = none ∧ stateFindVar m name = none) ∨
      ∃ a b, stateFindVar l name = some a ∧ stateFindVar m name = some b ∧ R a b := by
  induction h with
  | nil => exact .inl ⟨rfl, rfl⟩
  | @cons a b l m hab _ ih =>
    simp only [stateFindVar, List.find?_cons, hname a b hab] at ih ⊢
    by_cases ha : a.name = name
    · simp only [ha, decide_true]
      exact .inr ⟨a, b, rfl, rfl, hab⟩
    · simp only [decide_eq_false ha]
      exact ih

theorem TypesAgree.tail {vars : List StateVariable} {v : CString × DeviceNode} {vs : List (CString × DeviceNode)}
    (h : TypesAgree vars (v :: vs)) : TypesAgree vars vs := fun x hx => h x (List.mem_cons_of_mem _ hx)

/-- Whether types agree does not depend on the values. -/
theorem TypesAgree.same {vars vars' : List StateVariable} {vs : List (CString × DeviceNode)} (h : TypesAgree vars vs)
    (hsame : List.Forall₂ (fun a b => b.name = a.name ∧ a.data.SameKind b.data) vars vars') : TypesAgree vars' vs := by
  intro v hv vtype htype sv hsv
  rcases stateFindVar_forall₂ (fun _ _ hab => hab.1) hsame v.1 with ⟨-, hnone⟩ | ⟨a, b, ha, hb, -, hkind⟩
  · rw [hnone] at hsv
    cases hsv
  · rw [hb, Option.mem_some_iff] at hsv
    subst hsv
    rw [VariableType.agrees_sameKind hkind]
    exact h v hv vtype htype a ha

/-! ## What nodes say -/

/-- What a node says that is read with `read`: its value, or else the default,
and the default from then on. -/
def DeviceNode.stated {α : Type} (read : DeviceNode → CString → Except Int α) (node : DeviceNode) (valueDefault : α) :
    α × α :=
  let valueDefault := (read node (cstr "default")).toOption.getD valueDefault
  ((read node (cstr "value")).toOption.getD valueDefault, valueDefault)

/-- The default of a string, as text. -/
def DefaultPtr.text : DefaultPtr → Option CString
  | .str s | .tree s => some s
  | .null | .freed => none

/-- The string with the default that a node says. -/
def StateString.toldDefault (node : DeviceNode) (s : StateString) : StateString :=
  match ofPropertyReadString node (cstr "default") with
  | .ok dflt => { s with valueDefault := .tree dflt }
  | .error _ => s

/-- The text that a node says, where `s` has the node's default already. -/
def StateString.toldText (node : DeviceNode) (s : StateString) : Option CString :=
  (ofPropertyReadString node (cstr "value")).toOption <|> s.valueDefault.text

/-- A value once a node of its own type was imported. -/
def VarData.told (d : VarData) (node : DeviceNode) : VarData :=
  match d with
  | .uint8 _ dflt => .uint8 (node.stated ofPropertyReadU32 dflt).1 (node.stated ofPropertyReadU32 dflt).2
  | .uint32 _ dflt => .uint32 (node.stated ofPropertyReadU32 dflt).1 (node.stated ofPropertyReadU32 dflt).2
  | .enum32 _ dflt names => .enum32 (node.stated ofPropertyReadU32 dflt).1 (node.stated ofPropertyReadU32 dflt).2 names
  | .mac _ dflt => .mac (node.stated ofPropertyReadMac dflt).1 (node.stated ofPropertyReadMac dflt).2
  | .string s =>
    let s := s.toldDefault node
    .string ((s.toldText node).elim s fun text => (stateStringCopyToRaw s text).1)

/-- A number of the node has not four bytes. -/
def DeviceNode.OddNumber (node : DeviceNode) : Prop :=
  ∃ prop ∈ [cstr "value", cstr "default"], ∃ p ∈ ofFindProperty node prop, p.value.length ≠ 4

/-- The node says what a value of this kind cannot be. -/
def VarData.Refuses (vtype : VariableType) (node : DeviceNode) (d : VarData) : Prop :=
  match vtype, d with
  | .enum32, _ => node.OddNumber
  | .string, .string s =>
    (∃ dflt ∈ (s.toldDefault node).valueDefault.text, s.raw.length < dflt.1.length) ∨
      ∃ text ∈ (ofPropertyReadString node (cstr "value")).toOption, s.raw.length < text.1.length
  | _, _ => False

/-- The string is to be compared with a default that was freed. -/
def VarData.Dangling (node : DeviceNode) : VarData → Prop
  | .string s => (s.toldDefault node).valueDefault = .freed
  | _ => False

/-- After several nodes. -/
def VarData.toldBy (d : VarData) (nodes : List DeviceNode) : VarData := nodes.foldl VarData.told d

/-! ## One import -/

theorem ofPropertyReadU32_of_length {node : DeviceNode} {name : CString}
    (h : ∀ p ∈ ofFindProperty node name, p.value.length = 4) :
    (ofPropertyReadU32 node name).toOption = (ofFindProperty node name).map fun p => cell 0 p.value := by
  cases hp : ofFindProperty node name with
  | none => simp only [ofPropertyReadU32, ofFindPropertyValueOfSize, hp]; rfl
  | some p =>
    have h4 : p.value.length = 4 := h p hp
    simp only [ofPropertyReadU32, ofFindPropertyValueOfSize, hp]
    rw [if_neg (by omega)]
    rfl

/-- The import of an enum32 is that of any number, where both properties have
four bytes. -/
theorem stateEnum32Import_stated (node : DeviceNode) (v dflt : UInt32) :
    node.OddNumber ∧ stateEnum32Import node v dflt = (v, dflt, -EINVAL) ∨
      ¬ node.OddNumber ∧ stateEnum32Import node v dflt =
        ((node.stated ofPropertyReadU32 dflt).1, (node.stated ofPropertyReadU32 dflt).2, 0) := by
  have hany : (((ofFindProperty node (cstr "value")).any (·.value.length ≠ 4) ||
      (ofFindProperty node (cstr "default")).any (·.value.length ≠ 4)) = true) ↔ node.OddNumber := by
    simp [DeviceNode.OddNumber, Option.any_eq_true]
  rw [← hany, stateEnum32Import]
  split
  · next h => exact .inl ⟨h, rfl⟩
  · next h =>
    refine .inr ⟨h, ?_⟩
    have hfour : ∀ prop ∈ [cstr "value", cstr "default"], ∀ p ∈ ofFindProperty node prop, p.value.length = 4 := by
      intro prop hprop p hp
      by_contra hne
      exact h (hany.2 ⟨prop, hprop, p, hp, hne⟩)
    simp only [DeviceNode.stated]
    rw [ofPropertyReadU32_of_length (hfour _ (by simp)), ofPropertyReadU32_of_length (hfour _ (by simp))]

/-- The node `v` ends the import with an error, where those of `front` were
imported. -/
inductive VisitRefused (vars : List StateVariable) (front : List (CString × DeviceNode)) (v : CString × DeviceNode) :
    Prop
  | untyped {e : Int} : ofPropertyReadString v.2 (cstr "type") = .error e →
      (v.2.children.isEmpty = true ∨ e ≠ -EINVAL) → VisitRefused vars front v
  | unknown {typeName : CString} : ofPropertyReadString v.2 (cstr "type") = .ok typeName →
      stateFindTypeByName typeName = none → VisitRefused vars front v
  | value {vtype : VariableType} {sv : StateVariable} : v.2.variableType = some vtype →
      stateFindVar vars v.1 = some sv → (sv.data.toldBy (nodesNamed v.1 front)).Refuses vtype v.2 →
      VisitRefused vars front v

/-- The node `v` comes to a string whose default was freed. -/
def VisitDangling (vars : List StateVariable) (front : List (CString × DeviceNode)) (v : CString × DeviceNode) : Prop :=
  ∃ vtype sv, v.2.variableType = some vtype ∧ stateFindVar vars v.1 = some sv ∧
    (sv.data.toldBy (nodesNamed v.1 front)).Dangling v.2

/-- The variables once these nodes were imported: the first one of a name takes
those that come to it. -/
def toldVars (vs : List (CString × DeviceNode)) : List StateVariable → List StateVariable
  | [] => []
  | sv :: vars =>
    { sv with data := sv.data.toldBy (nodesNamed sv.name vs) } :: toldVars (vs.filter fun v => v.1 ≠ sv.name) vars

theorem toldVars_none {vs : List (CString × DeviceNode)} {vars : List StateVariable}
    (h : ∀ sv ∈ vars, nodesNamed sv.name vs = []) : toldVars vs vars = vars := by
  induction vars generalizing vs with
  | nil => rfl
  | cons sv vars ih =>
    rw [List.forall_mem_cons] at h
    rw [toldVars, h.1, ih fun x hx => ?_]
    · rfl
    · by_cases hname : sv.name = x.name
      · rw [hname]
        exact nodesNamed_filter_self x.name vs
      · rw [nodesNamed_filter hname]
        exact h.2 x hx

theorem VarData.inTree_sameKind (node : DeviceNode) (d : VarData) : d.SameKind (d.inTree node) := by
  cases d with
  | string s =>
    rw [inTree]
    split <;> exact .string rfl
  | _ => constructor

theorem stateImportVariable_same {name : CString} {node : DeviceNode} {vtype : VariableType} {ret : Int} :
    ∀ {vars vars' : List StateVariable}, stateImportVariable name node vtype vars = some (vars', ret) →
      List.Forall₂ (fun a b => b.name = a.name ∧ a.data.SameKind b.data) vars vars'
  | [], _, h => by
    cases h
    exact .nil
  | sv :: vars, _, h => by
    rw [stateImportVariable] at h
    split at h
    · obtain ⟨⟨data, r⟩, himport, heq⟩ := Option.map_eq_some_iff.1 h
      cases heq
      have hkind := (VariableType.import_sameKind himport).trans (data.inTree_sameKind node)
      exact .cons ⟨rfl, hkind⟩ (List.forall₂_same.2 fun x _ => ⟨rfl, .refl x.data⟩)
    · obtain ⟨⟨vs, r⟩, hrest, heq⟩ := Option.map_eq_some_iff.1 h
      cases heq
      exact .cons ⟨rfl, .refl sv.data⟩ (stateImportVariable_same hrest)

/-- The first variable of a name is the one that is imported. -/
theorem stateImportVariable_append {node : DeviceNode} {vtype : VariableType} {name : CString}
    {sv : StateVariable} {behind : List StateVariable} (hname : sv.name = name) :
    ∀ {before : List StateVariable}, (∀ x ∈ before, x.name ≠ name) →
      stateImportVariable name node vtype (before ++ sv :: behind) = (vtype.import node sv.data).map fun (data, ret) =>
        (before ++ { sv with data := data.inTree node } :: behind, ret)
  | [], _ => by rw [List.nil_append, stateImportVariable, if_pos hname]; rfl
  | x :: before, hbefore => by
    rw [List.cons_append, stateImportVariable, if_neg (hbefore x List.mem_cons_self),
      stateImportVariable_append hname fun y hy => hbefore y (List.mem_cons_of_mem _ hy), Option.map_map]
    rfl

theorem stateImportVariable_unknown {name : CString} {node : DeviceNode} {vtype : VariableType} :
    ∀ {vars : List StateVariable}, stateFindVar vars name = none →
      stateImportVariable name node vtype vars = some (vars, 0)
  | [], _ => rfl
  | sv :: vars, hfind => by
    rw [stateFindVar, List.find?_cons] at hfind
    split at hfind
    · cases hfind
    · next hname =>
      rw [stateImportVariable, if_neg (by simpa using hname), stateImportVariable_unknown hfind]
      rfl

/-- What the conversion of one node comes to. -/
inductive VisitTold (vars : List StateVariable) (v : CString × DeviceNode) : Option (List StateVariable × Int) → Prop
  | dangling : VisitDangling vars [] v → VisitTold vars v none
  | refused {vars' : List StateVariable} {ret : Int} : ¬ VisitDangling vars [] v → VisitRefused vars [] v → ret ≠ 0 →
      VisitTold vars v (some (vars', ret))
  | told : ¬ VisitDangling vars [] v → ¬ VisitRefused vars [] v → VisitTold vars v (some (toldVars [v] vars, 0))

theorem ofPropertyReadString_error {np : DeviceNode} {name : CString} {e : Int}
    (h : ofPropertyReadString np name = .error e) : e ≠ 0 := by
  rw [ofPropertyReadString] at h
  split at h
  · cases h
    decide
  · split at h <;> cases h
    decide

section
variable {vars : List StateVariable} {name typeName : CString} {node : DeviceNode} {vtype : VariableType}
  {sv : StateVariable}

/-- A node that is passed over leaves what is there. -/
theorem VisitTold.passed {v : CString × DeviceNode} (hstay : ¬ VisitDangling vars [] v) (hgood : ¬ VisitRefused vars [] v)
    (hvars : ∀ sv ∈ vars, nodesNamed sv.name [v] = []) : VisitTold vars v (some (vars, 0)) := by
  have htold := VisitTold.told hstay hgood
  rwa [toldVars_none hvars] at htold

end

/-! ## One node after the other -/

section
variable {vars : List StateVariable} {front : List (CString × DeviceNode)} {v : CString × DeviceNode}

end

end DtUtils
