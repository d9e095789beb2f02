/-
What `state_to_node` of `state.c` writes for a fixup, which is a state's
description for another program to find it by: the variables with their places
and defaults. A variable that is created from the node that is written for it
has its default for a value (`VariableType.create_fixup`). `of_state_fixup`
itself stops behind this and deletes the node, since no backend has a
reproducible name here. `none` results are accesses outside an object, or to
one that was freed.
-/
import DtUtils.DtbRoundTrip
import DtUtils.StringLists

namespace DtUtils
open Lib

/-! ## The variables -/

/-- `state_uint32_export` for `STATE_CONVERT_FIXUP` -/
def stateUint32Fixup (valueDefault : UInt32) : List Property :=
  if valueDefault ≠ 0 then [u32Property "default" valueDefault] else []

/-- `state_enum32_export` -/
def stateEnum32Fixup (valueDefault : UInt32) (names : List CString) : List Property :=
  (if valueDefault ≠ 0 then [u32Property "default" valueDefault] else []) ++
    [⟨cstr "names", names.flatMap fun name => name.1 ++ [0]⟩]

/-- `state_mac_export` -/
def stateMacFixup (valueDefault : Mac) : List Property :=
  if valueDefault.1 ≠ List.replicate 6 0 then [⟨cstr "default", valueDefault.1⟩] else []

/-- `state_string_export` -/
def stateStringFixup (string : StateString) : Option (List Property) :=
  match string.valueDefault with
  | .freed => none
  | .null => some []
  | .str s | .tree s => some [stringProperty "default" s]

/-- `vtype->export` for `STATE_CONVERT_FIXUP`, where `vtype` is the type that
the node names. -/
def VariableType.fixup (vtype : VariableType) (data : VarData) : Option (List Property) :=
  match vtype, data with
  | .uint8, .uint8 _ dflt | .uint32, .uint8 _ dflt | .uint8, .uint32 _ dflt | .uint32, .uint32 _ dflt
  | .uint8, .enum32 _ dflt _ | .uint32, .enum32 _ dflt _ => some (stateUint32Fixup dflt)
  | .uint8, .mac value dflt | .uint32, .mac value dflt => some (stateUint32Fixup (macNumbers value dflt).2)
  | .enum32, .enum32 _ dflt names => some (stateEnum32Fixup dflt names)
  | .mac, .mac _ dflt => some (stateMacFixup dflt)
  | .string, .string s => stateStringFixup s
  | _, _ => none

/-- `#address-cells` and `#size-cells` -/
def cellProperties : List Property := [u32Property "#address-cells" 1, u32Property "#size-cells" 1]

/-- The end of `state_convert_node_variable` for `STATE_CONVERT_FIXUP`, where
the children of the new node are there. -/
def stateFixupVariable (vars : List StateVariable) (name : CString) (node : DeviceNode) (children : List DeviceNode) :
    Option (Except Int DeviceNode) :=
  match ofPropertyReadString node (cstr "type") with
  | .error e =>
    if ¬ node.children.isEmpty ∧ e = -EINVAL then some (.ok (.node node.name 0 cellProperties children))
    else some (.error e)
  | .ok typeName =>
    match stateFindTypeByName typeName with
    | none => some (.error (-ENOENT))
    | some vtype =>
      match stateFindVar vars name with
      | none => some (.ok (.node node.name 0 [] children))
      | some sv => (vtype.fixup sv.data).map fun properties =>
          .ok (.node node.name 0 (stringProperty "type" vtype.typeName ::
            ⟨cstr "reg", beBytes 4 sv.start.toNat ++ beBytes 4 sv.size⟩ :: properties) children)

mutual
/-- `state_convert_node_variable` for `STATE_CONVERT_FIXUP` -/
def stateFixupNode (vars : List StateVariable) (parentName : CString) : DeviceNode → Option (Except Int DeviceNode)
  | .node nodeName phandle properties children => do
    let name := variableName parentName nodeName
    match ← stateFixupChildren vars name children with
    | .error e => return .error e
    | .ok new => stateFixupVariable vars name (.node nodeName phandle properties children) new

def stateFixupChildren (vars : List StateVariable) (name : CString) :
    List DeviceNode → Option (Except Int (List DeviceNode))
  | [] => some (.ok [])
  | child :: children => do
    match ← stateFixupNode vars name child with
    | .error e => return .error e
    | .ok new =>
      match ← stateFixupChildren vars name children with
      | .error e => return .error e
      | .ok news => return .ok (new :: news)
end

/-- `state_to_node` for `STATE_CONVERT_FIXUP` -/
def stateToNodeFixup (s : StateData) : Option (Except Int DeviceNode) := do
  match ← stateFixupChildren s.vars .empty s.node.children with
  | .error e => return .error e
  | .ok children => return .ok (.node s.node.name 0 [u32Property "magic" s.magic] children)

/-! ## One variable -/

/-- A new string of the same size and with the same default. -/
def StateString.reset (string : StateString) : StateString :=
  match string.valueDefault with
  | .str s => (stateStringCopyToRaw { StateString.zeroed string.raw.length string.le_4096 with valueDefault := .str s } s).1
  | _ => .zeroed string.raw.length string.le_4096

/-- The variable at its default. -/
def VarData.reset : VarData → VarData
  | .uint8 _ dflt => .uint8 dflt dflt
  | .uint32 _ dflt => .uint32 dflt dflt
  | .enum32 _ dflt names => .enum32 dflt dflt names
  | .mac _ dflt => .mac dflt dflt
  | .string s => .string s.reset

def StateVariable.reset (sv : StateVariable) : StateVariable := { sv with data := sv.data.reset }

@[simp] theorem VarData.reset_size (data : VarData) : data.reset.size = data.size := by
  cases data with
  | string s =>
    simp only [reset, size, StateString.reset]
    split
    · rw [stateStringCopyToRaw_length]
      simp [StateString.zeroed]
    · simp [StateString.zeroed]
  | _ => rfl

/-- Its default points into a tree that is gone. -/
def VarData.Freed (data : VarData) : Prop := ∃ s, data = .string s ∧ s.valueDefault = .freed

/-- An enumeration has names. -/
def VarData.Named (data : VarData) : Prop := ∀ v dflt names, data = .enum32 v dflt names → names ≠ []

theorem ofPropertyReadU32_none {np : DeviceNode} {name : CString} (h : ofFindProperty np name = none) :
    ofPropertyReadU32 np name = .error (-EINVAL) := by
  simp only [ofPropertyReadU32, ofFindPropertyValueOfSize, h]
  rfl

theorem ofPropertyReadMac_eq {np : DeviceNode} {name : CString} {p : Property} {m : Mac}
    (h : ofFindProperty np name = some p) (hv : p.value = m.1) : ofPropertyReadMac np name = .ok m := by
  have htake : m.1.take 6 = m.1 := List.take_of_length_le (by rw [m.2])
  have hlen : ¬ m.1.length < 6 := by rw [m.2]; omega
  simp only [ofPropertyReadMac, ofFindPropertyValueOfSize, h, hv, if_neg hlen, htake]
  rw [dif_pos m.2]

theorem ofPropertyReadMac_none {np : DeviceNode} {name : CString} (h : ofFindProperty np name = none) :
    ofPropertyReadMac np name = .error (-EINVAL) := by
  simp only [ofPropertyReadMac, ofFindPropertyValueOfSize, h]

/-- Strings that were put one behind the other are found again. -/
theorem splitStrings_flatMap (names : List CString) :
    splitStrings [] (names.flatMap fun name => name.1 ++ [0]) = some names := by
  induction names with
  | nil => rfl
  | cons name names ih =>
    have hname : CString.of ([] ++ name.1) = name := by
      have hof := CString.of_terminated name
      rw [List.nil_append]
      refine Subtype.ext (List.takeWhile_eq_self_iff.2 fun b hb => ?_)
      simpa using ne_of_mem_of_not_mem hb name.2
    rw [List.flatMap_cons, List.append_assoc, List.singleton_append, splitStrings_terminated name _ [] (by simp), ih, hname]
    rfl

section
variable {name : CString} {sv : StateVariable} {children : List DeviceNode} {properties : List Property}

theorem stateUint32Import_fixup {vtype : VariableType} {dflt : UInt32} :
    stateUint32Import (exportedNode name 0 vtype sv (stateUint32Fixup dflt) children) 0 = (dflt, dflt) := by
  have hvalue : ofPropertyReadU32 (exportedNode name 0 vtype sv (stateUint32Fixup dflt) children) (cstr "value") =
      .error (-EINVAL) := by
    refine ofPropertyReadU32_none ?_
    rw [exportedNode_find (by decide) (by decide), stateUint32Fixup]
    split <;> rfl
  have hdefault : (ofPropertyReadU32 (exportedNode name 0 vtype sv (stateUint32Fixup dflt) children)
      (cstr "default")).toOption.getD 0 = dflt := by
    by_cases h0 : dflt = 0
    · subst h0
      rfl
    · rw [ofPropertyReadU32_eq (p := u32Property "default" dflt) (v := dflt) ?_ rfl]
      · rfl
      · rw [exportedNode_find (by decide) (by decide), stateUint32Fixup, if_pos h0]
        rfl
  simp only [stateUint32Import, hdefault, hvalue]
  rfl

theorem stateEnum32Import_fixup {dflt : UInt32} {names : List CString} :
    stateEnum32Import (exportedNode name 0 .enum32 sv (stateEnum32Fixup dflt names) children) 0 0 = (dflt, dflt, 0) := by
  have hvalue : ofFindProperty (exportedNode name 0 .enum32 sv (stateEnum32Fixup dflt names) children) (cstr "value") =
      none := by
    rw [exportedNode_find (by decide) (by decide), stateEnum32Fixup]
    split <;> rfl
  by_cases h0 : dflt = 0
  · have hdefault : ofFindProperty (exportedNode name 0 .enum32 sv (stateEnum32Fixup dflt names) children)
        (cstr "default") = none := by
      rw [exportedNode_find (by decide) (by decide), stateEnum32Fixup, if_neg (not_not.2 h0)]
      rfl
    subst h0
    simp only [stateEnum32Import, hvalue, hdefault]
    rfl
  · have hdefault : ofFindProperty (exportedNode name 0 .enum32 sv (stateEnum32Fixup dflt names) children)
        (cstr "default") = some (u32Property "default" dflt) := by
      rw [exportedNode_find (by decide) (by decide), stateEnum32Fixup, if_pos h0]
      rfl
    have hcell : cell 0 (u32Property "default" dflt).value = dflt := cell_beBytes dflt
    simp only [stateEnum32Import, hvalue, hdefault, Option.map_some, Option.getD_some, hcell]
    rw [if_neg (by simp [u32Property])]
    rfl

theorem ofPropertyStrings_fixup {dflt : UInt32} {names : List CString} (hnames : names ≠ []) :
    ofPropertyStrings (exportedNode name 0 .enum32 sv (stateEnum32Fixup dflt names) children) (cstr "names") =
      some (.ok names) := by
  have hfind : ofFindProperty (exportedNode name 0 .enum32 sv (stateEnum32Fixup dflt names) children) (cstr "names") =
      some ⟨cstr "names", names.flatMap fun name => name.1 ++ [0]⟩ := by
    rw [exportedNode_find (by decide) (by decide), stateEnum32Fixup]
    split <;> rfl
  have hzero : (0 : UInt8) ∈ names.flatMap fun name => name.1 ++ [0] := by
    obtain ⟨first, hfirst⟩ := List.exists_mem_of_ne_nil names hnames
    exact List.mem_flatMap.2 ⟨first, hfirst, by simp⟩
  simp only [ofPropertyStrings, hfind]
  rw [if_pos hzero, splitStrings_flatMap]
  rfl

theorem stateMacImport_fixup {dflt : Mac} :
    stateMacImport (exportedNode name 0 .mac sv (stateMacFixup dflt) children) ⟨List.replicate 6 0, rfl⟩ =
      (dflt, dflt) := by
  have hvalue : ofPropertyReadMac (exportedNode name 0 .mac sv (stateMacFixup dflt) children) (cstr "value") =
      .error (-EINVAL) := by
    refine ofPropertyReadMac_none ?_
    rw [exportedNode_find (by decide) (by decide), stateMacFixup]
    split <;> rfl
  have hdefault : (ofPropertyReadMac (exportedNode name 0 .mac sv (stateMacFixup dflt) children)
      (cstr "default")).toOption.getD ⟨List.replicate 6 0, rfl⟩ = dflt := by
    by_cases h0 : dflt.1 = List.replicate 6 0
    · have hnone : ofFindProperty (exportedNode name 0 .mac sv (stateMacFixup dflt) children) (cstr "default") =
          none := by
        rw [exportedNode_find (by decide) (by decide), stateMacFixup, if_neg (not_not.2 h0)]
        rfl
      rw [ofPropertyReadMac_none hnone]
      exact Subtype.ext h0.symm
    · rw [ofPropertyReadMac_eq (p := ⟨cstr "default", dflt.1⟩) (m := dflt) ?_ rfl]
      · rfl
      · rw [exportedNode_find (by decide) (by decide), stateMacFixup, if_pos h0]
        rfl
  simp only [stateMacImport, hdefault, hvalue]
  rfl

theorem stateStringImport_fixup {string₀ string : StateString} (hfresh : string₀.Fresh)
    (hlen : string.raw.length = string₀.raw.length) (hdefault : string.valueDefault = string₀.valueDefault)
    (hfix : stateStringFixup string = some properties) :
    stateStringImport (exportedNode name 0 .string sv properties children)
      (.zeroed string.raw.length string.le_4096) = some (string.reset, 0) := by
  obtain ⟨node, hnode⟩ : ∃ node, node = exportedNode name 0 .string sv properties children := ⟨_, rfl⟩
  have hread (prop : CString) (htype : prop ≠ cstr "type") (hreg : prop ≠ cstr "reg") :
      ofFindProperty node prop = properties.find? (·.name = prop) := by
    rw [hnode]
    exact exportedNode_find htype hreg
  rw [← hnode]
  rcases hfresh.valueDefault with hnull | ⟨s, hs, hroom⟩
  · rw [hnull] at hdefault
    simp only [stateStringFixup, hdefault, Option.some.injEq] at hfix
    have hnone (prop : CString) (htype : prop ≠ cstr "type") (hreg : prop ≠ cstr "reg") :
        ofPropertyReadString node prop = .error (-EINVAL) := by
      refine ofPropertyReadString_none ?_
      rw [hread _ htype hreg, ← hfix]
      rfl
    simp only [stateStringImport, stateStringImportDefault, hnone (cstr "default") (by decide) (by decide),
      StateString.zeroed, stateStringImportValue, hnone (cstr "value") (by decide) (by decide), StateString.reset, hdefault]
    rfl
  · rw [hs] at hdefault
    simp only [stateStringFixup, hdefault, Option.some.injEq] at hfix
    have hdflt : ofPropertyReadString node (cstr "default") = .ok s := by
      refine ofPropertyReadString_eq (p := stringProperty "default" s) ?_ rfl
      rw [hread _ (by decide) (by decide), ← hfix]
      rfl
    have hvalue : ofPropertyReadString node (cstr "value") = .error (-EINVAL) := by
      refine ofPropertyReadString_none ?_
      rw [hread _ (by decide) (by decide), ← hfix]
      rfl
    have hlong : ¬ (StateString.zeroed string.raw.length string.le_4096).raw.length < s.1.length := by
      simp only [StateString.zeroed, List.length_replicate]
      omega
    have hcopied : (stateStringCopyToRaw
        { StateString.zeroed string.raw.length string.le_4096 with valueDefault := .str s } s).2 = 0 := by
      rw [stateStringCopyToRaw, dif_pos (by simpa using hlong)]
    simp only [stateStringImport, stateStringImportDefault, hdflt, if_neg hlong, stateStringImportValue, hvalue,
      StateString.reset, hdefault]
    exact congrArg some (Prod.ext rfl hcopied)


theorem exportedNode_reg {vtype : VariableType} :
    ofPropertyReadU32Pair (exportedNode name 0 vtype sv properties children) (cstr "reg") =
      .ok (sv.start, .ofNat sv.size) := by
  have hfind : ofFindProperty (exportedNode name 0 vtype sv properties children) (cstr "reg") =
      some ⟨cstr "reg", beBytes 4 sv.start.toNat ++ beBytes 4 sv.size⟩ := rfl
  have hlen : ¬ (beBytes 4 sv.start.toNat ++ beBytes 4 sv.size).length < 8 := by
    simp only [List.length_append, beBytes_length]
    omega
  have hstart : cell 0 (beBytes 4 sv.start.toNat ++ beBytes 4 sv.size) = sv.start := by
    rw [cell, slice_append_left (by rw [beBytes_length]), ← cell]
    exact cell_beBytes sv.start
  have hsize : cell 4 (beBytes 4 sv.start.toNat ++ beBytes 4 sv.size) = .ofNat sv.size := by
    have hlt := sv.size_lt
    rw [cell, slice_append_right (by rw [beBytes_length]), beBytes_length, Nat.sub_self, ← cell]
    have hcell := cell_beBytes (.ofNat sv.size)
    rwa [UInt32.toNat_ofNat', Nat.mod_eq_of_lt hlt] at hcell
  simp only [ofPropertyReadU32Pair, ofFindPropertyValueOfSize, hfind, if_neg hlen]
  exact congrArg Except.ok (Prod.ext hstart hsize)

/-- A variable is created from its node, with its default for a value. -/
theorem VariableType.create_fixup {data₀ data : VarData} (hfresh : data₀.Fresh) (hnamed : data₀.Named)
    (hlater : data₀.Later data) (hfix : data.type.fixup data = some properties) (hdata : sv.data = data)
    {node : DeviceNode} (hnode : node = exportedNode name 0 data.type sv properties children) :
    ∃ new, data.type.create node = some (.ok new) ∧ new.size = data.size ∧
      data.type.import node new = some (data.reset, 0) := by
  cases hlater with
  | @uint8 _ _ v dflt =>
    obtain rfl := Option.some.inj hfix
    have himport : stateUint32Import node 0 = (dflt, dflt) := hnode ▸ stateUint32Import_fixup
    refine ⟨.uint8 0 0, rfl, rfl, ?_⟩
    simp only [VarData.type, VariableType.import, himport, VarData.reset]
  | @uint32 _ _ v dflt =>
    obtain rfl := Option.some.inj hfix
    have himport : stateUint32Import node 0 = (dflt, dflt) := hnode ▸ stateUint32Import_fixup
    refine ⟨.uint32 0 0, rfl, rfl, ?_⟩
    simp only [VarData.type, VariableType.import, himport, VarData.reset]
  | @enum32 _ _ v dflt names =>
    obtain rfl := Option.some.inj hfix
    have himport : stateEnum32Import node 0 0 = (dflt, dflt, 0) := hnode ▸ stateEnum32Import_fixup
    have hnames : ofPropertyStrings node (cstr "names") = some (.ok names) :=
      hnode ▸ ofPropertyStrings_fixup (hnamed _ _ _ rfl)
    refine ⟨.enum32 0 0 names, ?_, rfl, ?_⟩
    · simp only [VarData.type, VariableType.create, hnames]
    · simp only [VarData.type, VariableType.import, himport, VarData.reset]
  | @mac _ _ v dflt =>
    obtain rfl := Option.some.inj hfix
    have himport : stateMacImport node ⟨List.replicate 6 0, rfl⟩ = (dflt, dflt) := hnode ▸ stateMacImport_fixup
    refine ⟨.mac ⟨List.replicate 6 0, rfl⟩ ⟨List.replicate 6 0, rfl⟩, rfl, rfl, ?_⟩
    simp only [VarData.type, VariableType.import, himport, VarData.reset]
  | @string string₀ string hlen hdefault _ =>
    have hkept : string.valueDefault = string₀.valueDefault := by
      rcases hdefault with hkept | hfreed
      · exact hkept
      · -- A default that was freed is not written.
        have hnone : stateStringFixup string = none := by simp only [stateStringFixup, hfreed]
        rw [VarData.type, VariableType.fixup, hnone] at hfix
        cases hfix
    have himport : stateStringImport node (.zeroed string.raw.length string.le_4096) = some (string.reset, 0) :=
      hnode ▸ stateStringImport_fixup hfresh hlen hkept hfix
    have hsize : (UInt32.ofNat sv.size).toNat = string.raw.length := by
      rw [UInt32.toNat_ofNat', Nat.mod_eq_of_lt sv.size_lt, StateVariable.size, hdata, VarData.size]
    have hreg : ofPropertyReadU32Pair node (cstr "reg") = .ok (sv.start, .ofNat sv.size) := hnode ▸ exportedNode_reg
    refine ⟨.string (.zeroed string.raw.length string.le_4096), ?_, by simp [VarData.size, StateString.zeroed], ?_⟩
    · simp only [VarData.type, VariableType.create, hreg, hsize]
      rw [dif_pos string.le_4096]
    · simp only [VarData.type, VariableType.import, himport, Option.map_some, VarData.reset]

end

/-! ## The tree -/

/-- The node `v'` is written for the node `v` of the description. -/
structure FixedUp (vars : List StateVariable) (v v' : CString × DeviceNode) : Prop where
  path : v'.1 = v.1
  children : v'.2.children.isEmpty = v.2.children.isEmpty
  typed : ∀ typeName, ofPropertyReadString v.2 (cstr "type") = .ok typeName →
    ∀ sv, stateFindVar vars v.1 = some sv → ∃ vtype properties, stateFindTypeByName typeName = some vtype ∧
      vtype.fixup sv.data = some properties ∧ v'.2 = exportedNode v.2.name 0 vtype sv properties v'.2.children
  untyped : ∀ e, ofPropertyReadString v.2 (cstr "type") = .error e → v'.2.properties = cellProperties

section
variable {vars : List StateVariable}

theorem stateFixupVariable_fixedUp {name : CString} {node new : DeviceNode} {children : List DeviceNode}
    (h : stateFixupVariable vars name node children = some (.ok new))
    (hchildren : children.isEmpty = node.children.isEmpty) :
    FixedUp vars (name, node) (name, new) ∧ new = .node node.name 0 new.properties children := by
  rw [stateFixupVariable] at h
  split at h
  · next e htype =>
    split at h
    · cases h
      refine ⟨⟨rfl, hchildren, fun _ ht => ?_, fun _ _ => rfl⟩, rfl⟩
      rw [htype] at ht
      cases ht
    · cases h
  · next typeName htype =>
    have huntyped : ∀ e, ofPropertyReadString node (cstr "type") = .error e → new.properties = cellProperties := by
      intro e he
      rw [htype] at he
      cases he
    split at h
    · cases h
    · next vtype hfind =>
      split at h
      · next hnone =>
        cases h
        refine ⟨⟨rfl, hchildren, fun _ _ sv hsv => ?_, huntyped⟩, rfl⟩
        rw [hnone] at hsv
        cases hsv
      · next sv hsome =>
        obtain ⟨properties, hproperties, heq⟩ := Option.map_eq_some_iff.1 h
        cases heq
        refine ⟨⟨rfl, hchildren, fun _ ht sv' hsv => ?_, huntyped⟩, rfl⟩
        rw [htype] at ht
        cases ht
        rw [hsome] at hsv
        cases hsv
        exact ⟨vtype, properties, hfind, hproperties, rfl⟩

mutual
theorem stateFixupNode_fixedUp {parentName : CString} : ∀ {node new : DeviceNode},
    stateFixupNode vars parentName node = some (.ok new) →
      List.Forall₂ (FixedUp vars) (visits parentName node) (visits parentName new)
  | .node nodeName phandle properties children, new, h => by
    simp only [stateFixupNode, Option.bind_eq_bind, Option.bind_eq_some_iff] at h
    obtain ⟨below, hbelow, h⟩ := h
    cases below with
    | error e => cases h
    | ok news =>
      obtain ⟨hall, hempty⟩ := stateFixupChildren_fixedUp hbelow
      obtain ⟨hnode, hnew⟩ := stateFixupVariable_fixedUp h hempty
      rw [hnew] at hnode ⊢
      exact List.rel_append hall (.cons hnode .nil)

/-- Each node that is visited has its node in the new tree. -/
theorem stateFixupChildren_fixedUp {name : CString} : ∀ {nodes news : List DeviceNode},
    stateFixupChildren vars name nodes = some (.ok news) →
      List.Forall₂ (FixedUp vars) (visitsBelow name nodes) (visitsBelow name news) ∧ news.isEmpty = nodes.isEmpty
  | [], _, h => by
    cases h
    exact ⟨.nil, rfl⟩
  | node :: nodes, news, h => by
    simp only [stateFixupChildren, Option.bind_eq_bind, Option.bind_eq_some_iff] at h
    obtain ⟨first, hfirst, h⟩ := h
    cases first with
    | error e => cases h
    | ok new =>
      simp only [Option.bind_eq_some_iff] at h
      obtain ⟨rest, hrest, h⟩ := h
      cases rest with
      | error e => cases h
      | ok news =>
        cases h
        exact ⟨List.rel_append (stateFixupNode_fixedUp hfirst) (stateFixupChildren_fixedUp hrest).1, rfl⟩
end

/-- The node of a description can be written. -/
def Writable (vars : List StateVariable) (v : CString × DeviceNode) : Prop :=
  ∀ children, ∃ new, stateFixupVariable vars v.1 v.2 children = some (.ok new)

mutual
theorem stateFixupNode_ok {parentName : CString} : ∀ {node : DeviceNode},
    (∀ v ∈ visits parentName node, Writable vars v) → ∃ new, stateFixupNode vars parentName node = some (.ok new)
  | .node nodeName phandle properties children, h => by
    rw [visits, List.forall_mem_append, List.forall_mem_singleton] at h
    obtain ⟨news, hnews⟩ := stateFixupChildren_ok h.1
    obtain ⟨new, hnew⟩ := h.2 news
    refine ⟨new, ?_⟩
    simp only [stateFixupNode, hnews, Option.bind_eq_bind, Option.bind_some]
    exact hnew

theorem stateFixupChildren_ok {name : CString} : ∀ {nodes : List DeviceNode},
    (∀ v ∈ visitsBelow name nodes, Writable vars v) → ∃ news, stateFixupChildren vars name nodes = some (.ok news)
  | [], _ => ⟨[], rfl⟩
  | node :: nodes, h => by
    rw [visitsBelow, List.forall_mem_append] at h
    obtain ⟨new, hnew⟩ := stateFixupNode_ok h.1
    obtain ⟨news, hnews⟩ := stateFixupChildren_ok h.2
    refine ⟨new :: news, ?_⟩
    simp only [stateFixupChildren, hnew, hnews, Option.bind_eq_bind, Option.bind_some]
    rfl
end

end

end DtUtils
