/-
The names of the variables of an accepted description. Whatever follows an `@`
is left out of them, and nothing refuses a name that is taken: every variable
is found under its own name exactly if no two nodes come to the same
(`own_names_iff`).
-/
import DtUtils.TypedNodes

namespace DtUtils
open Lib

/-- The full names of the nodes that describe variables. -/
def variableNames (vs : List (CString × DeviceNode)) : List CString :=
  (vs.filter fun v => (ofPropertyReadString v.2 (cstr "type")).isOk).map Prod.fst

/-- The name of each variable finds this variable, which is the one that is
read, set, imported and exported under it. -/
structure OwnNames (vars : List StateVariable) : Prop where
  find : ∀ (i : Nat) (sv : StateVariable), vars[i]? = some sv → vars.findIdx? (·.name = sv.name) = some i
  get : ∀ (i : Nat) (sv : StateVariable), vars[i]? = some sv → stateGetVar vars sv.name = sv.data.get.map some
  set : ∀ (i : Nat) (sv : StateVariable) val, vars[i]? = some sv → stateSetVar vars sv.name val =
    (sv.data.setVar val).map fun (data, set, ret) => (vars.set i { sv with data := data }, set, ret)
  importNode : ∀ (i : Nat) (sv : StateVariable) node (vtype : VariableType), vars[i]? = some sv →
      stateImportVariable sv.name node vtype vars =
    (vtype.import node sv.data).map fun (data, ret) => (vars.set i { sv with data := data.inTree node }, ret)
  exportNode : ∀ (i : Nat) (sv : StateVariable) (node : DeviceNode) children typeName vtype, vars[i]? = some sv →
    ofPropertyReadString node (cstr "type") = .ok typeName → stateFindTypeByName typeName = some vtype →
    stateConvertVariableToNode vars sv.name node children =
      (variableProperties vtype sv).map fun properties => .ok (.node node.name 0 properties children)

/-! ## Names in the list -/

theorem nodup_of_find {vars : List StateVariable}
    (h : ∀ (i : Nat) (sv : StateVariable), vars[i]? = some sv → vars.findIdx? (·.name = sv.name) = some i) :
    (vars.map (·.name)).Nodup := by
  rw [List.nodup_iff_getElem?_ne_getElem?]
  intro i j hij hj he
  rw [List.length_map] at hj
  have hi : i < vars.length := by omega
  have hj' := h j _ (List.getElem?_eq_getElem hj)
  obtain ⟨hlt, -, hbefore⟩ := List.findIdx?_eq_some_iff_getElem.1 hj'
  refine hbefore i hij ?_
  rw [List.getElem?_map, List.getElem?_map, List.getElem?_eq_getElem hi, List.getElem?_eq_getElem hj] at he
  simpa using he

/-- With distinct names, the variables in front of one have other names. -/
theorem split_of_nodup {vars : List StateVariable} (h : (vars.map (·.name)).Nodup) {i : Nat} {sv : StateVariable}
    (hi : vars[i]? = some sv) :
    ∃ before behind, vars = before ++ sv :: behind ∧ before.length = i ∧ ∀ x ∈ before, x.name ≠ sv.name := by
  obtain ⟨hlt, rfl⟩ := List.getElem?_eq_some_iff.1 hi
  have hsplit : vars = vars.take i ++ vars[i] :: vars.drop (i + 1) := by
    rw [← List.drop_eq_getElem_cons hlt, List.take_append_drop]
  refine ⟨vars.take i, vars.drop (i + 1), hsplit, List.length_take_of_le (by omega), fun x hx he => ?_⟩
  rw [hsplit, List.map_append, List.map_cons, List.nodup_append] at h
  exact h.2.2 _ (List.mem_map_of_mem hx) _ List.mem_cons_self he

section
variable {before behind : List StateVariable} {sv : StateVariable}

theorem findIdx?_append (hbefore : ∀ x ∈ before, x.name ≠ sv.name) :
    (before ++ sv :: behind).findIdx? (·.name = sv.name) = some before.length := by
  rw [List.findIdx?_eq_some_iff_getElem]
  refine ⟨by simp, by simp, fun j hj => ?_⟩
  rw [List.getElem_append_left hj]
  simpa using hbefore _ (List.getElem_mem hj)

theorem set_middle (new : StateVariable) : (before ++ sv :: behind).set before.length new =
    before ++ new :: behind := by
  rw [List.set_append_right _ _ le_rfl, Nat.sub_self, List.set_cons_zero]

end

theorem ownNames_of_nodup {vars : List StateVariable} (h : (vars.map (·.name)).Nodup) : OwnNames vars where
  find i sv hi := by
    obtain ⟨before, behind, rfl, rfl, hbefore⟩ := split_of_nodup h hi
    exact findIdx?_append hbefore
  get i sv hi := by
    obtain ⟨before, behind, rfl, rfl, hbefore⟩ := split_of_nodup h hi
    rw [stateGetVar, stateFindVar_append hbefore rfl]
  set i sv val hi := by
    obtain ⟨before, behind, rfl, rfl, hbefore⟩ := split_of_nodup h hi
    simp only [set_middle]
    exact stateSetVar_append rfl hbefore
  importNode i sv node vtype hi := by
    obtain ⟨before, behind, rfl, rfl, hbefore⟩ := split_of_nodup h hi
    simp only [set_middle]
    exact stateImportVariable_append rfl hbefore
  exportNode i sv node children typeName vtype hi ht hv := by
    obtain ⟨before, behind, rfl, rfl, hbefore⟩ := split_of_nodup h hi
    simp only [stateConvertVariableToNode, ht, hv, stateFindVar_append hbefore rfl]

theorem ownNames_iff_nodup {vars : List StateVariable} : OwnNames vars ↔ (vars.map (·.name)).Nodup :=
  ⟨fun h => nodup_of_find h.find, ownNames_of_nodup⟩

/-! ## Names of the nodes -/

/-- A conversion adds the name of its node, if this has a type. -/
theorem stateConvertVariable_names {name : CString} {node : DeviceNode} {vars vars' : List StateVariable}
    (h : stateConvertVariable true name node vars = some (vars', 0)) :
    (vars'.map (·.name)).Perm (vars.map (·.name) ++ variableNames [(name, node)]) := by
  rcases stateConvertVariable_create h with ⟨rfl, hno⟩ | ⟨typeName, vtype, ht, -, hcreate⟩
  · obtain ⟨e, he⟩ := hno rfl
    simp [variableNames, he, Except.isOk, Except.toBool]
  · rcases stateCreateVariable_cases hcreate with ⟨-, hne⟩ | ⟨data₀, start, size, data, -, -, -, -, rfl⟩
    · exact absurd rfl hne
    have hone : variableNames [(name, node)] = [name] := by simp [variableNames, ht, Except.isOk, Except.toBool]
    rw [hone]
    refine ((stateAddVar_perm vars _).map _).trans ?_
    rw [List.map_cons]
    exact (List.perm_append_singleton _ _).symm

theorem convertVisits_names : ∀ {vs : List (CString × DeviceNode)} {vars vars' : List StateVariable},
    convertVisits true vars vs = some (vars', 0) → (vars'.map (·.name)).Perm (vars.map (·.name) ++ variableNames vs)
  | [], _, _, h => by
    cases h
    simp [variableNames]
  | (name, node) :: vs, vars, vars', h => by
    simp only [convertVisits, Option.bind_eq_bind, Option.bind_eq_some_iff] at h
    obtain ⟨⟨vars₁, r⟩, hv, h⟩ := h
    simp only at h
    split at h
    · next hr =>
      cases h
      exact absurd rfl hr
    · next hr =>
      simp only [ne_eq, not_not] at hr
      subst hr
      have hsplit : variableNames ((name, node) :: vs) = variableNames [(name, node)] ++ variableNames vs := by
        simp only [variableNames, ← List.map_append, ← List.filter_append]
        rfl
      rw [hsplit, ← List.append_assoc]
      exact (convertVisits_names h).trans ((stateConvertVariable_names hv).append_right _)

/-- **Every variable is reachable under its own name exactly if no two nodes
with a type have the same full name.** -/
theorem own_names_iff {node : DeviceNode} {s : StateData} (h : stateFromNodeCreate node = some (s, 0)) :
    OwnNames s.vars ↔ (variableNames (visitsBelow .empty node.children)).Nodup := by
  obtain ⟨magic, -, hcreate, -, -⟩ := stateFromNodeCreate_accepted h
  rw [stateConvertChildren_visits] at hcreate
  rw [ownNames_iff_nodup]
  exact (convertVisits_names hcreate).nodup_iff

/-- A flag in a group and one of the same name outside it. -/
theorem own_names_group : ∃ s, stateFromNodeCreate (stateNode
      [.node (cstr "wan") 0 [] [variableNode "up@0" "uint8" 0 1 []], variableNode "up@1" "uint8" 1 1 []]) =
          some (s, 0) ∧
    OwnNames s.vars := by
  obtain ⟨s, hs⟩ : ∃ s, acceptedState (stateNode
      [.node (cstr "wan") 0 [] [variableNode "up@0" "uint8" 0 1 []], variableNode "up@1" "uint8" 1 1 []]) = some s :=
    Option.isSome_iff_exists.1 (by decide +kernel)
  exact ⟨s, acceptedState_eq hs, (own_names_iff (acceptedState_eq hs)).2 (by decide +kernel)⟩

/-- Two numbers whose nodes differ in their addresses only. -/
theorem own_names_shared : ∃ s, stateFromNodeCreate (stateNode
      [variableNode "a@0" "uint32" 0 4 [], variableNode "a@4" "uint32" 4 4 []]) = some (s, 0) ∧ ¬ OwnNames s.vars := by
  obtain ⟨s, hs⟩ : ∃ s, acceptedState (stateNode
      [variableNode "a@0" "uint32" 0 4 [], variableNode "a@4" "uint32" 4 4 []]) = some s :=
    Option.isSome_iff_exists.1 (by decide +kernel)
  have hnames : (acceptedState (stateNode [variableNode "a@0" "uint32" 0 4 [], variableNode "a@4" "uint32" 4 4 []])).map
      (fun s => s.vars.map (·.name)) = some [cstr "a", cstr "a"] := by decide +kernel
  rw [hs, Option.map_some, Option.some.injEq] at hnames
  refine ⟨s, acceptedState_eq hs, fun h => ?_⟩
  have hnodup := ownNames_iff_nodup.1 h
  rw [hnames] at hnodup
  exact absurd hnodup (by decide)

end DtUtils
