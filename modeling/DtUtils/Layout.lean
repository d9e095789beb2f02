/-
Where the variables of an accepted description lie. The list is sorted by
construction, and the check of neighbours keeps the byte ranges apart, as long
as none of them, with the header and the HMAC, reaches the end of the 32-bit
range (`layout_sound_iff`).
-/
import DtUtils.FormatRaw
import DtUtils.State
import Mathlib

namespace DtUtils
open Lib

/-! ## Conversions, node by node -/

mutual
/-- The node and all nodes below it have the property. -/
def DeviceNode.All (P : DeviceNode → Prop) : DeviceNode → Prop
  | .node name phandle properties children => P (.node name phandle properties children) ∧ allNodes P children

def allNodes (P : DeviceNode → Prop) : List DeviceNode → Prop
  | [] => True
  | node :: nodes => node.All P ∧ allNodes P nodes
end

mutual
theorem DeviceNode.All.imp {P Q : DeviceNode → Prop} (h : ∀ node, P node → Q node) :
    ∀ {node : DeviceNode}, node.All P → node.All Q
  | .node _ _ _ _, hall => ⟨h _ hall.1, allNodes_imp h hall.2⟩

theorem allNodes_imp {P Q : DeviceNode → Prop} (h : ∀ node, P node → Q node) :
    ∀ {nodes : List DeviceNode}, allNodes P nodes → allNodes Q nodes
  | [], _ => trivial
  | _ :: _, hall => ⟨hall.1.imp h, allNodes_imp h hall.2⟩
end

/-- The conversion of a node with `P` alone preserves `Q`. -/
def Preserves (create : Bool) (P : DeviceNode → Prop) (Q : List StateVariable → Prop) : Prop :=
  ∀ name node vars vars' ret, P node → Q vars → stateConvertVariable create name node vars = some (vars', ret) → Q vars'

section
variable {P : DeviceNode → Prop} {Q : List StateVariable → Prop} {create : Bool}

mutual
/-- What each node's own conversion preserves, that of the tree does. -/
theorem Preserves.node (hstep : Preserves create P Q) {parentName : CString} {vars vars' : List StateVariable}
    {ret : Int} :
    ∀ {node : DeviceNode}, node.All P → Q vars →
      stateConvertNodeVariable create parentName vars node = some (vars', ret) → Q vars'
  | .node name phandle properties children, hp, hq, h => by
    simp only [stateConvertNodeVariable, Option.bind_eq_bind, Option.bind_eq_some_iff] at h
    obtain ⟨⟨vars₁, r⟩, hc, h⟩ := h
    have hq₁ := hstep.children hp.2 hq hc
    simp only at h
    split at h
    · cases h
      exact hq₁
    · exact hstep _ _ _ _ _ hp.1 hq₁ h

theorem Preserves.children (hstep : Preserves create P Q) {name : CString} {vars vars' : List StateVariable}
    {ret : Int} :
    ∀ {nodes : List DeviceNode}, allNodes P nodes → Q vars →
      stateConvertChildren create name vars nodes = some (vars', ret) → Q vars'
  | [], _, hq, h => by
    cases h
    exact hq
  | node :: nodes, hp, hq, h => by
    simp only [stateConvertChildren, Option.bind_eq_bind, Option.bind_eq_some_iff] at h
    obtain ⟨⟨vars₁, r⟩, hc, h⟩ := h
    have hq₁ := hstep.node hp.1 hq hc
    simp only at h
    split at h
    · cases h
      exact hq₁
    · exact hstep.children hp.2 hq₁ h
end

end

mutual
theorem DeviceNode.all_true : ∀ node : DeviceNode, node.All fun _ => True
  | .node _ _ _ children => ⟨trivial, allNodes_true children⟩

theorem allNodes_true : ∀ nodes : List DeviceNode, allNodes (fun _ => True) nodes
  | [] => trivial
  | node :: nodes => ⟨node.all_true, allNodes_true nodes⟩
end

theorem ofFindPropertyValueOfSize_error {np : DeviceNode} {propname : CString} {len : Nat} {e : Int}
    (h : ofFindPropertyValueOfSize np propname len = .error e) : e ≠ 0 := by
  rw [ofFindPropertyValueOfSize] at h
  split at h
  · cases h
    decide
  · split at h <;> cases h
    decide

theorem ofPropertyReadU32_error {np : DeviceNode} {propname : CString} {e : Int}
    (h : ofPropertyReadU32 np propname = .error e) : e ≠ 0 := by
  rw [ofPropertyReadU32] at h
  cases hv : ofFindPropertyValueOfSize np propname 4 with
  | error e' =>
    rw [hv] at h
    cases h
    exact ofFindPropertyValueOfSize_error hv
  | ok value =>
    rw [hv] at h
    cases h

theorem ofPropertyReadU32Pair_error {np : DeviceNode} {propname : CString} {e : Int}
    (h : ofPropertyReadU32Pair np propname = .error e) : e ≠ 0 := by
  rw [ofPropertyReadU32Pair] at h
  cases hv : ofFindPropertyValueOfSize np propname 8 with
  | error e' =>
    rw [hv] at h
    cases h
    exact ofFindPropertyValueOfSize_error hv
  | ok value =>
    rw [hv] at h
    cases h

theorem VariableType.create_error {node : DeviceNode} {vtype : VariableType} {e : Int}
    (h : vtype.create node = some (.error e)) : e ≠ 0 := by
  cases vtype with
  | uint8 | uint32 | mac => cases h
  | enum32 =>
    simp only [create] at h
    split at h <;> cases h
    decide
  | string =>
    simp only [create] at h
    split at h
    · next he =>
      cases h
      exact ofPropertyReadU32Pair_error he
    · split at h <;> cases h
      decide

theorem stateCreateVariable_cases {name : CString} {node : DeviceNode} {vtype : VariableType}
    {vars vars' : List StateVariable} {ret : Int} (h : stateCreateVariable name node vtype vars = some (vars', ret)) :
    vars' = vars ∧ ret ≠ 0 ∨ ∃ data₀ start size data, vtype.create node = some (.ok data₀) ∧
      ofPropertyReadU32Pair node (cstr "reg") = .ok (start, size) ∧ size.toNat = data₀.size ∧
      vtype.import node data₀ = some (data, ret) ∧ vars' = stateAddVar vars ⟨name, start, data⟩ := by
  simp only [stateCreateVariable, Option.bind_eq_bind, Option.bind_eq_some_iff] at h
  obtain ⟨made, hmade, h⟩ := h
  cases made with
  | error e =>
    cases h
    exact .inl ⟨rfl, VariableType.create_error hmade⟩
  | ok data₀ =>
    simp only at h
    split at h
    · next he =>
      cases h
      exact .inl ⟨rfl, ofPropertyReadU32Pair_error he⟩
    · next start size hreg =>
      split at h
      · cases h
        exact .inl ⟨rfl, by decide⟩
      · next hsize =>
        rw [Option.bind_eq_some_iff] at h
        obtain ⟨⟨data, r⟩, himp, h⟩ := h
        cases h
        exact .inr ⟨data₀, start, size, data, hmade, hreg, by simpa using hsize, himp, rfl⟩

/-- The conversion of a node leaves the list alone, and then fails or has no
type to go by, or creates a variable. -/
theorem stateConvertVariable_create {name : CString} {node : DeviceNode} {vars vars' : List StateVariable} {ret : Int}
    (h : stateConvertVariable true name node vars = some (vars', ret)) :
    vars' = vars ∧ (ret = 0 → ∃ e, ofPropertyReadString node (cstr "type") = .error e) ∨
    ∃ typeName vtype, ofPropertyReadString node (cstr "type") = .ok typeName ∧
      stateFindTypeByName typeName = some vtype ∧ stateCreateVariable name node vtype vars = some (vars', ret) := by
  simp only [stateConvertVariable, if_true] at h
  split at h
  · next he =>
    split at h <;>
    · cases h
      exact .inl ⟨rfl, fun _ => ⟨_, he⟩⟩
  · next typeName ht =>
    split at h
    · cases h
      exact .inl ⟨rfl, fun h0 => absurd h0 (by decide)⟩
    · next vtype hv => exact .inr ⟨typeName, vtype, ht, hv, h⟩

/-! ## Order -/

/-- No variable starts before one in front of it. -/
def Sorted (vars : List StateVariable) : Prop := vars.Pairwise fun a b => a.start ≤ b.start

theorem stateVarCompare_neg {new pos : StateVariable} : ¬ stateVarCompare pos new < 0 ↔ new.start ≤ pos.start := by
  rw [stateVarCompare]
  split
  · next h => simp [h]
  · next h => simpa using h

theorem Sorted.add {vars : List StateVariable} (h : Sorted vars) (var : StateVariable) :
    Sorted (stateAddVar vars var) := by
  have : Std.Total fun a b : StateVariable => a.start ≤ b.start := ⟨fun a b => UInt32.le_total a.start b.start⟩
  have : IsTrans StateVariable fun a b => a.start ≤ b.start := ⟨fun _ _ _ => UInt32.le_trans⟩
  have hp := List.Pairwise.orderedInsert (r := fun a b : StateVariable => a.start ≤ b.start) var vars h
  simp only [Sorted, stateAddVar, listAddSort]
  convert hp using 3
  exact funext fun pos => propext stateVarCompare_neg

theorem sorted_preserves : Preserves true (fun _ => True) Sorted := by
  intro name node vars vars' ret _ hs h
  rcases stateConvertVariable_create h with ⟨rfl, -⟩ | ⟨-, vtype, -, -, h⟩
  · exact hs
  · rcases stateCreateVariable_cases h with ⟨rfl, -⟩ | ⟨-, start, -, data, -, -, -, -, rfl⟩
    · exact hs
    · exact hs.add _

theorem stateFromNodeCreate_accepted {node : DeviceNode} {s : StateData} (h : stateFromNodeCreate node = some (s, 0)) :
    ∃ magic, ofPropertyReadU32 node (cstr "magic") = .ok magic ∧
      stateConvertChildren true .empty [] node.children = some (s.vars, 0) ∧ s = ⟨magic, node, s.vars⟩ ∧
      variablesConflict s.vars = false := by
  rw [stateFromNodeCreate] at h
  split at h
  · next he =>
    cases h
    exact absurd rfl (ofPropertyReadU32_error he)
  · next magic hm =>
    simp only [Option.bind_eq_bind, Option.bind_eq_some_iff] at h
    obtain ⟨⟨vars, r⟩, hc, h⟩ := h
    simp only at h
    split at h
    · next hr =>
      cases h
      exact absurd rfl hr
    · next hr =>
      simp only [ne_eq, not_not] at hr
      subst hr
      simp only [Option.pure_def, Option.some.injEq, Prod.mk.injEq] at h
      obtain ⟨rfl, hconf⟩ := h
      refine ⟨magic, hm, hc, rfl, ?_⟩
      by_contra hne
      rw [if_pos (by simpa using hne)] at hconf
      exact absurd hconf (by decide)

/-! ## The nodes of the variables -/

mutual
/-- The nodes that describe variables: those with a type. -/
def variableNodes : DeviceNode → List DeviceNode
  | .node name phandle properties children =>
    childVariableNodes children ++
      if (ofPropertyReadString (.node name phandle properties children) (cstr "type")).isOk then
        [.node name phandle properties children]
      else []

def childVariableNodes : List DeviceNode → List DeviceNode
  | [] => []
  | node :: nodes => variableNodes node ++ childVariableNodes nodes
end

/-- The position and the size a node asks for. -/
def DeviceNode.reg (node : DeviceNode) : UInt32 × UInt32 :=
  (ofPropertyReadU32Pair node (cstr "reg")).toOption.getD (0, 0)

/-- The position and the size of a variable. -/
def StateVariable.place (sv : StateVariable) : UInt32 × UInt32 := (sv.start, .ofNat sv.size)

theorem stateStringImport_length {node : DeviceNode} {string string' : StateString} {ret : Int}
    (h : stateStringImport node string = some (string', ret)) : string'.raw.length = string.raw.length := by
  have hvalue : ∀ (s : StateString) d, (stateStringImportValue node s d).1.raw.length = s.raw.length := by
    intro s d
    rw [stateStringImportValue]
    split
    · rfl
    · exact stateStringCopyToRaw_length _ _
  have hdefault : (stateStringImportDefault node string).raw = string.raw := by
    rw [stateStringImportDefault]
    split <;> rfl
  simp only [stateStringImport] at h
  generalize stateStringImportDefault node string = s at h hdefault
  rw [← hdefault]
  have hstr : ∀ {d : CString}, (if s.raw.length < d.1.length then some (s, -EILSEQ)
      else some (stateStringImportValue node s (some d))) = some (string', ret) →
          string'.raw.length = s.raw.length := by
    intro d h
    split at h
    · cases h
      rfl
    · simp only [Option.some.injEq] at h
      rw [← hvalue s, h]
  split at h
  · cases h
  · exact hstr h
  · exact hstr h
  · simp only [Option.some.injEq] at h
    rw [← hvalue s, h]

/-- Two values of one variable of one description. -/
inductive VarData.SameKind : VarData → VarData → Prop
  | uint8 {v dflt v' dflt'} : SameKind (.uint8 v dflt) (.uint8 v' dflt')
  | uint32 {v dflt v' dflt'} : SameKind (.uint32 v dflt) (.uint32 v' dflt')
  | enum32 {v dflt v' dflt' names} : SameKind (.enum32 v dflt names) (.enum32 v' dflt' names)
  | mac {v dflt v' dflt'} : SameKind (.mac v dflt) (.mac v' dflt')
  | string {s s'} : s.raw.length = s'.raw.length → SameKind (.string s) (.string s')

theorem VarData.SameKind.refl : ∀ d : VarData, d.SameKind d
  | .uint8 .. => .uint8
  | .uint32 .. => .uint32
  | .enum32 .. => .enum32
  | .mac .. => .mac
  | .string _ => .string rfl

theorem VarData.SameKind.trans {a b c : VarData} (h : a.SameKind b) (h' : b.SameKind c) : a.SameKind c := by
  cases h with
  | string hl =>
    cases h' with
    | string hl' => exact .string (hl.trans hl')
  | _ =>
    cases h'
    constructor

theorem VarData.SameKind.symm {a b : VarData} (h : a.SameKind b) : b.SameKind a := by
  cases h with
  | string hl => exact .string hl.symm
  | _ => constructor

theorem VarData.SameKind.size {a b : VarData} (h : a.SameKind b) : a.size = b.size := by
  cases h with
  | string hl => exact hl
  | _ => rfl

theorem VarData.SameKind.type {a b : VarData} (h : a.SameKind b) : a.type = b.type := by
  cases h <;> rfl

/-- **An import keeps the kind of a value**, also one of another type. -/
theorem VariableType.import_sameKind {vtype : VariableType} {node : DeviceNode} {data data' : VarData} {ret : Int}
    (h : vtype.import node data = some (data', ret)) : data.SameKind data' := by
  cases vtype <;> cases data <;> simp only [VariableType.import, Option.some.injEq, Prod.mk.injEq, reduceCtorEq,
    Option.map_eq_some_iff] at h
  all_goals
    first
    | obtain ⟨rfl, -⟩ := h
      constructor
    | obtain ⟨⟨s', r⟩, hs, rfl, -⟩ := h
      exact .string (stateStringImport_length hs).symm
    | obtain ⟨_, -, rfl, -⟩ := h
      constructor

theorem stateAddVar_perm (vars : List StateVariable) (var : StateVariable) :
    (stateAddVar vars var).Perm (var :: vars) :=
  List.perm_orderedInsert _ _ _

theorem stateConvertVariable_places {name : CString} {node : DeviceNode} {vars vars' : List StateVariable}
    (h : stateConvertVariable true name node vars = some (vars', 0)) :
    (vars'.map StateVariable.place).Perm (vars.map StateVariable.place ++
      if (ofPropertyReadString node (cstr "type")).isOk then [node.reg] else []) := by
  rcases stateConvertVariable_create h with ⟨rfl, hno⟩ | ⟨typeName, vtype, ht, -, h⟩
  · obtain ⟨e, he⟩ := hno rfl
    rw [he]
    simp [Except.isOk, Except.toBool]
  · rcases stateCreateVariable_cases h with ⟨-, hne⟩ | ⟨data₀, start, size, data, -, hreg, hsize, himp, rfl⟩
    · exact absurd rfl hne
    have hplace : StateVariable.place ⟨name, start, data⟩ = node.reg := by
      simp only [StateVariable.place, DeviceNode.reg, hreg, StateVariable.size, ← (VariableType.import_sameKind himp).size, ← hsize]
      simp [Except.toOption]
    rw [ht]
    simp only [Except.isOk, Except.toBool, if_true]
    refine ((stateAddVar_perm vars _).map _).trans ?_
    rw [List.map_cons, hplace]
    exact (List.perm_append_singleton _ _).symm

mutual
theorem stateConvertNodeVariable_places {parentName : CString} {vars vars' : List StateVariable} :
    ∀ {node : DeviceNode}, stateConvertNodeVariable true parentName vars node = some (vars', 0) →
      (vars'.map StateVariable.place).Perm (vars.map StateVariable.place ++ (variableNodes node).map DeviceNode.reg)
  | .node name phandle properties children, h => by
    simp only [stateConvertNodeVariable, Option.bind_eq_bind, Option.bind_eq_some_iff] at h
    obtain ⟨⟨vars₁, r⟩, hc, h⟩ := h
    simp only at h
    split at h
    · next hr =>
      cases h
      exact absurd rfl hr
    next hr =>
    simp only [ne_eq, not_not] at hr
    subst hr
    refine (stateConvertVariable_places h).trans ?_
    rw [variableNodes, List.map_append, ← List.append_assoc]
    refine ((stateConvertChildren_places hc).append_right _).trans (List.Perm.of_eq ?_)
    split <;> rfl

theorem stateConvertChildren_places {name : CString} {vars vars' : List StateVariable} :
    ∀ {nodes : List DeviceNode}, stateConvertChildren true name vars nodes = some (vars', 0) →
      (vars'.map StateVariable.place).Perm (vars.map StateVariable.place ++
          (childVariableNodes nodes).map DeviceNode.reg)
  | [], h => by
    cases h
    simp [childVariableNodes]
  | node :: nodes, h => by
    simp only [stateConvertChildren, Option.bind_eq_bind, Option.bind_eq_some_iff] at h
    obtain ⟨⟨vars₁, r⟩, hc, h⟩ := h
    simp only at h
    split at h
    · next hr =>
      cases h
      exact absurd rfl hr
    next hr =>
    simp only [ne_eq, not_not] at hr
    subst hr
    refine (stateConvertChildren_places h).trans ?_
    rw [childVariableNodes, List.map_append, ← List.append_assoc]
    exact (stateConvertNodeVariable_places hc).append_right _
end

/-! ## Room -/

/-- Where a variable's bytes end, computed without a limit. -/
def StateVariable.stop (sv : StateVariable) : Nat := sv.start.toNat + sv.size

theorem StateVariable.size_lt (sv : StateVariable) : sv.size < 2 ^ 32 := by
  have := sv.data.size_le
  rw [StateVariable.size]
  omega

theorem RawFormat.digestLength_le (raw : RawFormat) : raw.digestLength ≤ 64 := by
  rw [digestLength]
  split
  · omega
  · next d _ => exact d.length_le

/-- Neighbours that passed the check, as long as the first of them ends where
it seems to. -/
theorem stop_le_start {last sv : StateVariable} (hstop : last.stop < 2 ^ 32)
    (h : last.start + UInt32.ofNat last.size - 1 < sv.start) : last.stop ≤ sv.start.toNat := by
  have hsize := last.size_lt
  have hsv := sv.start.toNat_lt
  rw [StateVariable.stop] at hstop ⊢
  rw [UInt32.lt_iff_toNat_lt, UInt32.toNat_sub, UInt32.toNat_add, UInt32.toNat_ofNat_of_lt' hsize] at h
  simp only [UInt32.toNat_one] at h
  omega

/-- Variables that do not conflict lie one behind the other. -/
theorem apart_of_not_conflict : ∀ {vars : List StateVariable}, (∀ sv ∈ vars, sv.stop < 2 ^ 32) →
    variablesConflict vars = false → vars.Pairwise fun a b => a.stop ≤ b.start.toNat
  | [], _, _ => .nil
  | [sv], _, _ => List.pairwise_singleton _ _
  | last :: sv :: vars, hstop, h => by
    simp only [variablesConflict, Bool.or_eq_false_iff, Bool.not_eq_false', decide_eq_true_eq] at h
    have hnext := stop_le_start (hstop last (by simp)) h.1
    have hrest := apart_of_not_conflict (fun v hv => hstop v (by simp [hv])) h.2
    refine List.pairwise_cons.2 ⟨fun v hv => ?_, hrest⟩
    rcases List.mem_cons.1 hv with rfl | hv
    · exact hnext
    · have := (List.pairwise_cons.1 hrest).1 v hv
      have hsv : sv.start.toNat ≤ sv.stop := Nat.le_add_right _ _
      omega

/-- All of them end where the last one does, or in front of it. -/
theorem stop_le_last {vars : List StateVariable} (h : vars.Pairwise fun a b => a.stop ≤ b.start.toNat)
    {last : StateVariable} (hlast : vars.getLast? = some last) : ∀ sv ∈ vars, sv.stop ≤ last.stop := by
  intro sv hsv
  obtain ⟨front, rfl⟩ := List.getLast?_eq_some_iff.1 hlast
  rcases List.mem_append.1 hsv with hfront | hself
  · have := (List.pairwise_append.1 h).2.2 sv hfront last (by simp)
    have : last.start.toNat ≤ last.stop := Nat.le_add_right _ _
    omega
  · rw [List.mem_singleton.1 hself]

theorem rawPackData_isSome : ∀ {vars : List StateVariable} {data : Bytes}, (∀ sv ∈ vars, sv.stop ≤ data.length) →
    ∃ data', rawPackData vars data = some data' ∧ data'.length = data.length
  | [], data, _ => ⟨data, rfl, rfl⟩
  | sv :: vars, data, h => by
    have hsv := h sv (by simp)
    rw [StateVariable.stop] at hsv
    have hlen : (splice sv.start.toNat sv.raw data).length = data.length :=
      splice_length (by rw [StateVariable.raw, VarData.raw_length]; exact hsv)
    rw [rawPackData, if_neg (by omega)]
    have hrest : ∀ v ∈ vars, v.stop ≤ (splice sv.start.toNat sv.raw data).length := fun v hv => by
      rw [hlen]
      exact h v (by simp [hv])
    obtain ⟨data', hd, hl⟩ := rawPackData_isSome hrest
    exact ⟨data', hd, hl.trans hlen⟩

theorem backendFormatRawUnpack_isSome {buf : Bytes} (hbuf : 16 + (BackendRawHeader.parse buf).dataLen ≤ buf.length) :
    ∀ {vars : List StateVariable}, (∀ sv ∈ vars, sv.stop < 2 ^ 32) → (backendFormatRawUnpack buf vars).isSome
  | [], _ => rfl
  | sv :: vars, h => by
    obtain ⟨⟨vars', ret⟩, hrest⟩ := Option.isSome_iff_exists.1
      (backendFormatRawUnpack_isSome hbuf fun v hv => h v (List.mem_cons_of_mem _ hv))
    have hstop := h sv (by simp)
    rw [StateVariable.stop] at hstop
    have hend : sv.endPos = sv.start.toNat + sv.size := Nat.mod_eq_of_lt hstop
    simp only [backendFormatRawUnpack, hrest, Option.bind_eq_bind, Option.bind_some, formatRawMinLength, hend]
    split
    · rfl
    · rw [if_neg (by rw [slice_length (by omega)]; omega)]
      rfl

/-- What the raw format needs of a list of variables: sorted, apart from each
other, ending inside 32 bits and inside the data that pack allocates for them,
so that neither pack nor unpack leaves its buffer. -/
structure SoundLayout (raw : RawFormat) (vars : List StateVariable) : Prop where
  sorted : Sorted vars
  disjoint : vars.Pairwise fun a b => Disjoint (Set.Ico a.start.toNat a.stop) (Set.Ico b.start.toNat b.stop)
  noWrap : ∀ sv ∈ vars, sv.stop < 2 ^ 32
  inside : ∀ last, vars.getLast? = some last → ∀ sv ∈ vars, sv.stop ≤ last.endPos ∧
    formatRawMinLength + sv.stop ≤ (last.endPos + formatRawMinLength + raw.digestLength) % 2 ^ 32
  pack : vars ≠ [] → ∀ magic, (backendFormatRawPackData magic raw vars).isSome
  unpack : ∀ buf, formatRawMinLength + (BackendRawHeader.parse buf).dataLen ≤ buf.length →
    (backendFormatRawUnpack buf vars).isSome

theorem SoundLayout.of_apart {raw : RawFormat} {vars : List StateVariable} (hsorted : Sorted vars)
    (hroom : ∀ sv ∈ vars, sv.stop + formatRawMinLength + raw.digestLength < 2 ^ 32)
    (hapart : vars.Pairwise fun a b => a.stop ≤ b.start.toNat) : SoundLayout raw vars := by
  have hmin : formatRawMinLength = 16 := rfl
  have hstop : ∀ sv ∈ vars, sv.stop < 2 ^ 32 := fun sv hsv => by have := hroom sv hsv; omega
  have hend : ∀ sv ∈ vars, sv.endPos = sv.stop := fun sv hsv => Nat.mod_eq_of_lt (hstop sv hsv)
  have hinside : ∀ last, vars.getLast? = some last → ∀ sv ∈ vars, sv.stop ≤ last.endPos ∧
      formatRawMinLength + sv.stop ≤ (last.endPos + formatRawMinLength + raw.digestLength) % 2 ^ 32 := by
    intro last hlast sv hsv
    have hmem : last ∈ vars := List.mem_of_getLast? hlast
    have hle := stop_le_last hapart hlast sv hsv
    have := hroom last hmem
    rw [hend last hmem, Nat.mod_eq_of_lt this]
    omega
  refine ⟨hsorted, hapart.imp fun h => ?_, hstop, hinside, fun hne magic => ?_, fun buf hbuf =>
    backendFormatRawUnpack_isSome hbuf hstop⟩
  · exact Set.disjoint_left.2 fun i hi hi' => by
      simp only [Set.mem_Ico] at hi hi'
      omega
  · obtain ⟨last, hlast⟩ := Option.isSome_iff_exists.1 (List.getLast?_isSome.2 hne)
    have hin := hinside last hlast
    have hself := (hin last (List.mem_of_getLast? hlast)).2
    rw [← hend last (List.mem_of_getLast? hlast)] at hself
    have hfits : ∀ sv ∈ vars, sv.stop ≤ (List.replicate
        ((last.endPos + formatRawMinLength + raw.digestLength) % 2 ^ 32 - formatRawMinLength) (0 : UInt8)).length :=
      fun sv hsv => by
        have := (hin sv hsv).2
        rw [List.length_replicate]
        omega
    obtain ⟨data, hdata, -⟩ := rawPackData_isSome hfits
    simp only [backendFormatRawPackData, hlast, hdata, Option.bind_eq_bind, Option.bind_some]
    rw [if_neg (by omega)]
    split <;> rfl

theorem SoundLayout.room {raw : RawFormat} {vars : List StateVariable} (h : SoundLayout raw vars) :
    ∀ sv ∈ vars, sv.stop + formatRawMinLength + raw.digestLength < 2 ^ 32 := by
  intro sv hsv
  have hmin : formatRawMinLength = 16 := rfl
  have hd := raw.digestLength_le
  obtain ⟨last, hlast⟩ := Option.isSome_iff_exists.1 (List.getLast?_isSome.2 (List.ne_nil_of_mem hsv))
  have hmem : last ∈ vars := List.mem_of_getLast? hlast
  have hend : last.endPos = last.stop := Nat.mod_eq_of_lt (h.noWrap last hmem)
  have hlt := h.noWrap last hmem
  have hself := (h.inside last hlast last hmem).2
  have hle := (h.inside last hlast sv hsv).1
  rw [hend] at hself hle
  by_cases hwrap : last.stop + formatRawMinLength + raw.digestLength < 2 ^ 32
  · omega
  · -- The size of the whole buffer would be less than that of header and data.
    have hmod : (last.stop + formatRawMinLength + raw.digestLength) % 2 ^ 32 =
        last.stop + formatRawMinLength + raw.digestLength - 2 ^ 32 := by omega
    omega

/-- The variables of an accepted description lie where their nodes say. -/
theorem stop_iff_reg {node : DeviceNode} {s : StateData} (h : stateFromNodeCreate node = some (s, 0)) (k : Nat) :
    (∀ sv ∈ s.vars, sv.stop + k < 2 ^ 32) ↔
      ∀ n ∈ childVariableNodes node.children, n.reg.1.toNat + n.reg.2.toNat + k < 2 ^ 32 := by
  obtain ⟨magic, -, hconv, -, -⟩ := stateFromNodeCreate_accepted h
  have hplaces := stateConvertChildren_places hconv
  rw [List.map_nil, List.nil_append] at hplaces
  have hstop : ∀ sv : StateVariable, sv.stop = sv.place.1.toNat + sv.place.2.toNat := fun sv => by
    rw [StateVariable.stop, StateVariable.place, UInt32.toNat_ofNat_of_lt' sv.size_lt]
  constructor
  · intro hall n hn
    obtain ⟨sv, hsv, heq⟩ := List.mem_map.1 (hplaces.mem_iff.2 (List.mem_map_of_mem hn))
    rw [← heq, ← hstop]
    exact hall sv hsv
  · intro hall sv hsv
    obtain ⟨n, hn, heq⟩ := List.mem_map.1 (hplaces.mem_iff.1 (List.mem_map_of_mem hsv))
    rw [hstop, ← heq]
    exact hall n hn

/-- **Accepted variable layouts**: a description that is accepted makes a
sound layout exactly if no variable's node asks for a place that ends, with
the header and the HMAC, at or behind the end of the 32-bit range. -/
theorem layout_sound_iff {node : DeviceNode} {s : StateData} (h : stateFromNodeCreate node = some (s, 0))
    (raw : RawFormat) :
    SoundLayout raw s.vars ↔ ∀ n ∈ childVariableNodes node.children,
      n.reg.1.toNat + n.reg.2.toNat + (formatRawMinLength + raw.digestLength) < 2 ^ 32 := by
  rw [← stop_iff_reg h]
  constructor
  · intro hsound sv hsv
    rw [← Nat.add_assoc]
    exact hsound.room sv hsv
  · intro hroom
    obtain ⟨magic, -, hconv, -, hconf⟩ := stateFromNodeCreate_accepted h
    have hsorted : Sorted s.vars := sorted_preserves.children (allNodes_true _) .nil hconv
    refine .of_apart hsorted (fun sv hsv => ?_) (apart_of_not_conflict (fun sv hsv => ?_) hconf) <;>
    · have := hroom sv hsv
      omega

/-! ## Examples -/

/-- A variable's node. -/
def variableNode (name type : String) (start size : Nat) (more : List Property) : DeviceNode :=
  .node (cstr name) 0 (⟨cstr "reg", beBytes 4 start ++ beBytes 4 size⟩ ::
      ⟨cstr "type", (cstr type).1 ++ [0]⟩ :: more) []

/-- A state node with the magic 1. -/
def stateNode (children : List DeviceNode) : DeviceNode := .node (cstr "state") 0 [⟨cstr "magic", beBytes 4 1⟩] children

/-- What `state_from_node` makes of a node that it accepts. -/
def acceptedState (node : DeviceNode) : Option StateData :=
  match stateFromNodeCreate node with
  | some (s, 0) => some s
  | _ => none

theorem acceptedState_eq {node : DeviceNode} {s : StateData} (h : acceptedState node = some s) :
    stateFromNodeCreate node = some (s, 0) := by
  rw [acceptedState] at h
  split at h
  · next heq =>
    cases h
    exact heq
  · cases h

/-- A flag behind a number. -/
theorem layout_sound_small : ∃ s, stateFromNodeCreate
      (stateNode [variableNode "flag@4" "uint8" 4 1 [], variableNode "count@0" "uint32" 0 4 []]) = some (s, 0) ∧
    SoundLayout (backendFormatRawCreate none) s.vars := by
  obtain ⟨s, hs⟩ : ∃ s, acceptedState
      (stateNode [variableNode "flag@4" "uint8" 4 1 [], variableNode "count@0" "uint32" 0 4 []]) = some s :=
    Option.isSome_iff_exists.1 (by decide +kernel)
  exact ⟨s, acceptedState_eq hs, (layout_sound_iff (acceptedState_eq hs) _).2 (by decide +kernel)⟩

/-- Two numbers, of which the first one wraps around and overlaps the second. -/
def wrappingNode : DeviceNode :=
  stateNode [variableNode "a@fffffffe" "uint32" 0xfffffffe 4 [], variableNode "b@ffffffff" "uint32" 0xffffffff 4 []]

/-- They are accepted, though not sound: packing them leaves the buffer. -/
theorem layout_wraps : ∃ s, stateFromNodeCreate wrappingNode = some (s, 0) ∧
    ¬ SoundLayout (backendFormatRawCreate none) s.vars ∧
    backendFormatRawPackData 1 (backendFormatRawCreate none) s.vars = none := by
  obtain ⟨s, hs⟩ : ∃ s, acceptedState wrappingNode = some s := Option.isSome_iff_exists.1 (by decide +kernel)
  have hstop : (acceptedState wrappingNode).map (fun s => s.vars.all fun sv => decide (sv.stop < 2 ^ 32)) =
      some false := by
    decide +kernel
  have hpack : (acceptedState wrappingNode).map (fun s =>
      (backendFormatRawPackData 1 (backendFormatRawCreate none) s.vars).isNone) = some true := by decide +kernel
  rw [hs, Option.map_some, Option.some.injEq] at hstop hpack
  refine ⟨s, acceptedState_eq hs, fun h => ?_, Option.isNone_iff_eq_none.1 hpack⟩
  rw [List.all_eq_false] at hstop
  obtain ⟨sv, hsv, hlt⟩ := hstop
  exact hlt (decide_eq_true (h.noWrap sv hsv))

end DtUtils
