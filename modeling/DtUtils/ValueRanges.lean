/-
The ranges of a uint8 and an enum32. Only setting a value checks its range: the
description, a stored tree and the raw bytes of an enum32 may bring in any
number, and a stored node of another type any bytes. Where they do not, every
value stays in range, and is read as its stored bytes mean (`values_in_range`).
-/
import DtUtils.FailedLoad
import DtUtils.OwnNames
import DtUtils.ShortCut
import DtUtils.Writes

namespace DtUtils
open Lib

/-! ## Ranges -/

/-- A uint8 is that of a byte, and an enum32 the index of a name. -/
def VarData.InRange : VarData → Prop
  | .uint8 v _ => v.toNat ≤ 255
  | .enum32 v _ names => v.toNat < names.length
  | _ => True

/-- What the bytes at `var.raw` mean. -/
def VarData.meaning (bs : Bytes) : VarData → Option CString
  | .uint8 .. | .uint32 .. => some (decimal (.ofNat (leNat bs)))
  | .enum32 _ _ names => names[leNat bs]?
  | .mac .. => some (CString.of ([58].intercalate (bs.map hexByte)))
  | .string _ => some (CString.of bs)

/-- Every value is in range, and is read as its raw bytes mean. -/
def ValuesInRange (vars : List StateVariable) : Prop :=
  ∀ sv ∈ vars, sv.data.InRange ∧ ∃ text, sv.data.get = some text ∧ sv.data.meaning sv.raw = some text

/-! ## What brings numbers in -/

/-- The numbers that the nodes of one variable give it, one after the other, are
below the limit: the `value` of each, or else its `default`, or else the default
from before. -/
def NumbersBelow (limit : Nat) (valueDefault : UInt32) : List DeviceNode → Prop
  | [] => True
  | node :: nodes =>
    let valueDefault := (ofPropertyReadU32 node (cstr "default")).toOption.getD valueDefault
    ((ofPropertyReadU32 node (cstr "value")).toOption.getD valueDefault).toNat < limit ∧
      NumbersBelow limit valueDefault nodes

/-- The numbers in these nodes are in the range of the variable. -/
def VarData.NodesInRange (nodes : List DeviceNode) : VarData → Prop
  | .uint8 _ dflt => NumbersBelow 256 dflt nodes
  | .enum32 _ dflt names => NumbersBelow names.length dflt nodes
  | _ => True

/-- The nodes of a tree have the types of the variables, and the numbers that
it has for them are in range. -/
structure VisitsInRange (vars : List StateVariable) (vs : List (CString × DeviceNode)) : Prop where
  agree : TypesAgree vars vs
  numbers : ∀ name sv, stateFindVar vars name = some sv → sv.data.NodesInRange (nodesNamed name vs)

/-- The variable that is created for a node, before the node is imported. -/
def DeviceNode.newData (node : DeviceNode) : Option VarData := do
  let typeName ← (ofPropertyReadString node (cstr "type")).toOption
  let vtype ← stateFindTypeByName typeName
  let data ← vtype.create node
  data.toOption

/-- The description's numbers are in range. -/
def DescribedInRange (vs : List (CString × DeviceNode)) : Prop :=
  ∀ v ∈ vs, ∀ data ∈ v.2.newData, data.NodesInRange [v.2]

/-- The numbers that stored data have for an enum32 are in range. -/
def RawInRange (_ : RawFormat) (s : StateData) (data : Bytes) : Prop :=
  ∀ sv ∈ s.vars, RawHolds data sv → ∀ v dflt names, sv.data = .enum32 v dflt names →
    leNat (rawStored data sv) < names.length

/-- The tree that is imported has the variables' types, and numbers in range. -/
def DtbInRange (kept : DtbFormat) (s : StateData) (data : Bytes) : Prop :=
  ∀ tree magic, dtbUsed kept data = some tree → ofPropertyReadU32 tree (cstr "magic") = .ok magic →
    s.magic = 0 ∨ s.magic = magic → VisitsInRange s.vars (visitsBelow .empty tree.children)

/-- What a load selects is in range. -/
def LoadsInRange {F : Type} (fmt : Format F) (inRange : F → StateData → Bytes → Prop) (_ : List StateCall)
    (x : Env × State F Bucket) (call : StateCall) : Prop :=
  ∀ noAuth, call.noAuth = some noAuth → ∀ kept data len, Selected fmt noAuth x.1 x.2 kept data len →
    inRange kept x.2.data data

instance decidableNumbersBelow (limit : Nat) : ∀ (dflt : UInt32) (nodes : List DeviceNode),
    Decidable (NumbersBelow limit dflt nodes)
  | _, [] => isTrue trivial
  | _, _ :: nodes => @instDecidableAnd _ _ _ (decidableNumbersBelow limit _ nodes)

instance (nodes : List DeviceNode) (d : VarData) : Decidable (d.NodesInRange nodes) := by
  cases d <;> unfold VarData.NodesInRange <;> infer_instance

instance (vs : List (CString × DeviceNode)) : Decidable (DescribedInRange vs) := by
  unfold DescribedInRange
  infer_instance

/-! ## Reading -/

theorem VarData.InRange.read {d : VarData} (h : d.InRange) :
    ∃ text, d.get = some text ∧ d.meaning d.raw = some text := by
  have hback (v : UInt32) : UInt32.ofNat (leNat (leBytes 4 v.toNat)) = v := by
    rw [leNat_leBytes_of_lt v.toNat_lt, UInt32.ofNat_toNat]
  cases d with
  | uint8 v dflt =>
    refine ⟨_, rfl, ?_⟩
    have hv : leNat [v.toUInt8] = v.toNat := by
      have : v.toNat ≤ 255 := h
      simp only [leNat, UInt32.toNat_toUInt8]
      omega
    simp only [meaning, raw, hv, UInt32.ofNat_toNat]
  | uint32 v dflt => exact ⟨_, rfl, by simp only [meaning, raw, hback]⟩
  | enum32 v dflt names =>
    have hname : names[v.toNat]? = some (names.get ⟨v.toNat, h⟩) := List.getElem?_eq_getElem h
    refine ⟨_, hname, ?_⟩
    simp only [meaning, raw]
    rw [leNat_leBytes_of_lt v.toNat_lt, hname]
  | mac v dflt => exact ⟨_, rfl, rfl⟩
  | string s => exact ⟨_, rfl, rfl⟩

theorem valuesInRange_iff {vars : List StateVariable} : ValuesInRange vars ↔ ∀ sv ∈ vars, sv.data.InRange :=
  ⟨fun h sv hsv => (h sv hsv).1, fun h sv hsv => ⟨h sv hsv, (h sv hsv).read⟩⟩

/-! ## What every operation keeps -/

theorem VarData.set_inRange {d : VarData} (h : d.InRange) (val : CString) : (d.set val).1.InRange := by
  cases d with
  | uint8 v dflt =>
    simp only [set]
    split
    · exact h
    · rw [InRange, UInt32.toNat_ofNat']
      exact (Nat.mod_le _ _).trans (by omega)
  | uint32 v dflt => trivial
  | enum32 v dflt names =>
    simp only [set]
    split
    · exact h
    · next i hi =>
      obtain ⟨hlt, -⟩ := List.findIdx?_eq_some_iff_getElem.1 hi
      rw [InRange, UInt32.toNat_ofNat']
      exact Nat.lt_of_le_of_lt (Nat.mod_le _ _) hlt
  | mac v dflt =>
    simp only [set]
    split <;> trivial
  | string s =>
    simp only [set]
    split <;> trivial

/-- A uint8 that is in range stays so with any byte. -/
theorem VarData.setRaw_inRange {d : VarData} {bs : Bytes} (h : d.InRange)
    (henum : ∀ v dflt names, d = .enum32 v dflt names → leNat bs < names.length) : (d.setRaw bs).InRange := by
  cases d with
  | uint8 v dflt =>
    have hb := (bs.headD 0).toNat_lt
    have hv : v.toNat ≤ 255 := h
    rw [setRaw, InRange, UInt32.toNat_ofNat']
    exact (Nat.mod_le _ _).trans (by omega)
  | enum32 v dflt names =>
    rw [setRaw, InRange, UInt32.toNat_ofNat']
    exact Nat.lt_of_le_of_lt (Nat.mod_le _ _) (henum v dflt names rfl)
  | uint32 | mac | string => trivial

theorem stateSetVar_inRange {name val : CString} {vars vars' : List StateVariable} {set : Bool} {ret : Int}
    (h : stateSetVar vars name val = some (vars', set, ret)) (hvars : ∀ sv ∈ vars, sv.data.InRange) :
    ∀ sv ∈ vars', sv.data.InRange := by
  induction vars generalizing vars' set ret with
  | nil =>
    cases h
    exact hvars
  | cons sv vars ih =>
    rw [List.forall_mem_cons] at hvars
    rw [stateSetVar] at h
    split at h
    · split at h
      · cases h
      · split at h
        · cases h
          exact List.forall_mem_cons.2 hvars
        · cases h
          exact List.forall_mem_cons.2 ⟨VarData.set_inRange hvars.1 val, hvars.2⟩
    · obtain ⟨⟨vs, s, r⟩, hrest, heq⟩ := Option.map_eq_some_iff.1 h
      cases heq
      exact List.forall_mem_cons.2 ⟨hvars.1, ih hrest hvars.2⟩

theorem backendFormatRawUnpack_inRange {raw : RawFormat} {s : StateData} {buf : Bytes} {vars : List StateVariable}
    {ret : Int} (h : backendFormatRawUnpack buf s.vars = some (vars, ret)) (hraw : RawInRange raw s buf)
    (hvars : ∀ sv ∈ s.vars, sv.data.InRange) : ∀ sv ∈ vars, sv.data.InRange := by
  obtain ⟨rfl, -⟩ := unpack_eq h
  intro sv hsv
  obtain ⟨old, hold, rfl⟩ := List.mem_map.1 hsv
  rw [unpackVariable]
  split
  · exact hvars old hold
  · next hlt => exact VarData.setRaw_inRange (hvars old hold) (hraw old hold (Nat.le_of_not_lt hlt))

/-! ## Importing -/

theorem stateEnum32Import_below {limit : Nat} {node : DeviceNode} {nodes : List DeviceNode} {v dflt : UInt32}
    (h : NumbersBelow limit dflt (node :: nodes)) (hv : (stateEnum32Import node v dflt).2.2 ≠ 0 → v.toNat < limit) :
    (stateEnum32Import node v dflt).1.toNat < limit ∧
      ((stateEnum32Import node v dflt).2.2 = 0 → NumbersBelow limit (stateEnum32Import node v dflt).2.1 nodes) := by
  rcases stateEnum32Import_stated node v dflt with ⟨-, he⟩ | ⟨-, he⟩
  · rw [he] at hv ⊢
    have hfailed : -EINVAL ≠ 0 := by decide
    exact ⟨hv hfailed, fun h0 => absurd h0 hfailed⟩
  · rw [he]
    exact ⟨h.1, fun _ => h.2⟩

/-- An import of an agreeing type takes the number of the node; one that fails
leaves the value. -/
theorem VariableType.import_inRange {vtype : VariableType} {node : DeviceNode} {nodes : List DeviceNode}
    {d d' : VarData} {ret : Int} (h : vtype.import node d = some (d', ret)) (hagree : vtype.agrees d)
    (hnodes : d.NodesInRange (node :: nodes)) (hd : ret ≠ 0 → d.InRange) :
    d'.InRange ∧ (ret = 0 → d'.NodesInRange nodes) := by
  cases d with
  | uint8 v dflt =>
    cases vtype with
    | uint8 | uint32 =>
      cases h
      exact ⟨Nat.le_of_lt_succ hnodes.1, fun _ => hnodes.2⟩
    | enum32 =>
      cases h
      obtain ⟨hvalue, hdefault⟩ := stateEnum32Import_below hnodes fun hne => Nat.lt_succ_of_le (hd hne)
      exact ⟨Nat.le_of_lt_succ hvalue, hdefault⟩
    | mac | string => cases hagree
  | enum32 v dflt names =>
    cases vtype with
    | uint8 | uint32 =>
      cases h
      exact ⟨hnodes.1, fun _ => hnodes.2⟩
    | enum32 =>
      cases h
      exact stateEnum32Import_below hnodes hd
    | mac | string => cases hagree
  | uint32 | mac | string =>
    cases VariableType.import_sameKind h
    exact ⟨trivial, fun _ => trivial⟩

theorem VarData.inTree_inRange {d : VarData} {node : DeviceNode} : (d.inTree node).InRange ↔ d.InRange := by
  cases d with
  | string s =>
    rw [inTree]
    split <;> rfl
  | _ => rfl

theorem VarData.inTree_nodesInRange {d : VarData} {node : DeviceNode} {nodes : List DeviceNode} :
    (d.inTree node).NodesInRange nodes ↔ d.NodesInRange nodes := by
  cases d with
  | string s =>
    rw [inTree]
    split <;> rfl
  | _ => rfl

theorem VarData.freeDefault_inRange {d : VarData} : d.freeDefault.InRange ↔ d.InRange := by
  cases d <;> rfl

/-- The first variable of a name takes the numbers of its first node. -/
theorem stateImportVariable_inRange {name : CString} {node : DeviceNode} {vtype : VariableType}
    {vs : List (CString × DeviceNode)} {vars vars' : List StateVariable} {ret : Int}
    (htype : node.variableType = some vtype) (h : stateImportVariable name node vtype vars = some (vars', ret))
    (hvars : ∀ sv ∈ vars, sv.data.InRange) (hvs : VisitsInRange vars ((name, node) :: vs)) :
    (∀ sv ∈ vars', sv.data.InRange) ∧ (ret = 0 → VisitsInRange vars' vs) := by
  have hrestAgree : TypesAgree vars' vs := hvs.agree.tail.same (stateImportVariable_same h)
  cases hfind : stateFindVar vars name with
  | none =>
    rw [stateImportVariable_unknown hfind] at h
    cases h
    refine ⟨hvars, fun _ => ⟨hrestAgree, fun name' sv hsv => ?_⟩⟩
    have hne : name ≠ name' := by
      rintro rfl
      rw [hfind] at hsv
      cases hsv
    rw [← nodesNamed_cons_of_ne hne node vs]
    exact hvs.numbers name' sv hsv
  | some sv =>
    have hnodes := hvs.numbers name sv hfind
    rw [nodesNamed_cons_self htype] at hnodes
    have hagree := hvs.agree (name, node) List.mem_cons_self vtype htype sv hfind
    have hnumbers := hvs.numbers
    obtain ⟨before, behind, rfl, hbefore, hname⟩ := stateFindVar_split hfind
    rw [stateImportVariable_append hname hbefore] at h
    obtain ⟨⟨data, ret⟩, himport, heq⟩ := Option.map_eq_some_iff.1 h
    cases heq
    obtain ⟨hdata, hrest⟩ := VariableType.import_inRange himport hagree hnodes fun _ => hvars sv (by simp)
    constructor
    · intro x hx
      simp only [List.mem_append, List.mem_cons] at hx
      rcases hx with hx | rfl | hx
      · exact hvars x (by simp [hx])
      · exact VarData.inTree_inRange.2 hdata
      · exact hvars x (by simp [hx])
    · refine fun h0 => ⟨hrestAgree, fun name' x hx => ?_⟩
      by_cases hne : name = name'
      · subst hne
        have hname' : StateVariable.name { sv with data := data.inTree node } = name := hname
        rw [stateFindVar_append hbefore hname'] at hx
        cases hx
        exact VarData.inTree_nodesInRange.2 (hrest h0)
      · rw [← nodesNamed_cons_of_ne hne node vs]
        refine hnumbers name' x ?_
        subst hname
        simpa [stateFindVar, List.find?_append, List.find?_cons, hne] using hx

theorem stateConvertVariable_inRange {name : CString} {node : DeviceNode} {vs : List (CString × DeviceNode)}
    {vars vars' : List StateVariable} {ret : Int} (h : stateConvertVariable false name node vars = some (vars', ret))
    (hvars : ∀ sv ∈ vars, sv.data.InRange) (hvs : VisitsInRange vars ((name, node) :: vs)) :
    (∀ sv ∈ vars', sv.data.InRange) ∧ (ret = 0 → VisitsInRange vars' vs) := by
  simp only [stateConvertVariable, Bool.false_eq_true, if_false] at h
  split at h
  · next e ht =>
    have htype : node.variableType = none := by simp [DeviceNode.variableType, ht, Except.toOption]
    have hrest : VisitsInRange vars vs := by
      refine ⟨hvs.agree.tail, fun name' sv hsv => ?_⟩
      rw [← nodesNamed_cons_untyped htype name' name vs]
      exact hvs.numbers name' sv hsv
    split at h <;>
    · cases h
      exact ⟨hvars, fun _ => hrest⟩
  · next typeName ht =>
    split at h
    · cases h
      exact ⟨hvars, fun h0 => absurd h0 (by decide)⟩
    · next vtype hfind => exact stateImportVariable_inRange (DeviceNode.variableType_eq ht hfind) h hvars hvs

/-- The nodes are imported one after the other, up to the first that fails. -/
theorem convertVisits_inRange {vs : List (CString × DeviceNode)} {vars vars' : List StateVariable} {ret : Int}
    (h : convertVisits false vars vs = some (vars', ret)) (hvars : ∀ sv ∈ vars, sv.data.InRange)
    (hvs : VisitsInRange vars vs) : ∀ sv ∈ vars', sv.data.InRange := by
  induction vs generalizing vars vars' ret with
  | nil =>
    cases h
    exact hvars
  | cons v vs ih =>
    obtain ⟨name, node⟩ := v
    simp only [convertVisits, Option.bind_eq_bind, Option.bind_eq_some_iff] at h
    obtain ⟨⟨vars₁, r⟩, hfirst, h⟩ := h
    obtain ⟨hvars₁, hrest⟩ := stateConvertVariable_inRange hfirst hvars hvs
    simp only at h
    split at h
    · cases h
      exact hvars₁
    · next h0 => exact ih h hvars₁ (hrest (by simpa using h0))

theorem stateFromNode_inRange {s : StateData} {tree : DeviceNode} {vars : List StateVariable} {ret : Int}
    (h : stateFromNode s tree = some (vars, ret)) (hvars : ∀ sv ∈ s.vars, sv.data.InRange)
    (hvs : ∀ magic, ofPropertyReadU32 tree (cstr "magic") = .ok magic → s.magic = 0 ∨ s.magic = magic →
      VisitsInRange s.vars (visitsBelow .empty tree.children)) :
    ∀ sv ∈ vars.map StateVariable.freeDefault, sv.data.InRange := by
  have himported : ∀ sv ∈ vars, sv.data.InRange := by
    rw [stateFromNode] at h
    split at h
    · cases h
      exact hvars
    · next magic hmagic =>
      split at h
      · cases h
        exact hvars
      · next hsame =>
        rw [stateConvertChildren_visits] at h
        exact convertVisits_inRange h hvars (hvs magic hmagic (by tauto))
  intro sv hsv
  obtain ⟨old, hold, rfl⟩ := List.mem_map.1 hsv
  exact VarData.freeDefault_inRange.2 (himported old hold)

/-! ## Creation -/

theorem stateConvertVariable_created {name : CString} {node : DeviceNode} {vars vars' : List StateVariable}
    (h : stateConvertVariable true name node vars = some (vars', 0)) (hnode : DescribedInRange [(name, node)])
    (hvars : ∀ sv ∈ vars, sv.data.InRange) : ∀ sv ∈ vars', sv.data.InRange := by
  rcases stateConvertVariable_create h with ⟨rfl, -⟩ | ⟨typeName, vtype, htype, hfind, hcreate⟩
  · exact hvars
  rcases stateCreateVariable_cases hcreate with ⟨-, hne⟩ | ⟨data₀, start, -, data, hmade, -, -, himport, rfl⟩
  · exact absurd rfl hne
  have hnew : DeviceNode.newData node = some data₀ := by
    simp only [DeviceNode.newData, htype, Except.toOption, hfind, hmade, Option.bind_eq_bind, Option.bind_some]
  have hnodes := hnode (name, node) List.mem_cons_self data₀ hnew
  have hagree : vtype.agrees data₀ := (VariableType.create_fits hmade).2 ▸ VariableType.agrees_type data₀
  have hdata := (VariableType.import_inRange himport hagree hnodes fun hne => absurd rfl hne).1
  intro sv hsv
  rcases List.mem_cons.1 ((stateAddVar_perm vars _).mem_iff.1 hsv) with rfl | hsv
  · exact hdata
  · exact hvars sv hsv

theorem convertVisits_created_inRange {vs : List (CString × DeviceNode)} {vars vars' : List StateVariable}
    (h : convertVisits true vars vs = some (vars', 0)) (hvs : DescribedInRange vs)
    (hvars : ∀ sv ∈ vars, sv.data.InRange) : ∀ sv ∈ vars', sv.data.InRange := by
  induction vs generalizing vars vars' with
  | nil =>
    cases h
    exact hvars
  | cons v vs ih =>
    obtain ⟨name, node⟩ := v
    simp only [convertVisits, Option.bind_eq_bind, Option.bind_eq_some_iff] at h
    obtain ⟨⟨vars₁, r⟩, hfirst, h⟩ := h
    simp only at h
    split at h
    · next hne =>
      cases h
      exact absurd rfl hne
    · next h0 =>
      obtain rfl : r = 0 := by simpa using h0
      refine ih h (fun v hv => hvs v (List.mem_cons_of_mem _ hv)) ?_
      exact stateConvertVariable_created hfirst (fun v hv => hvs v (by simp_all)) hvars

/-! ## Runs -/

section
variable {F : Type} {fmt : Format F} {inRange : F → StateData → Bytes → Prop}

/-- Unpacking data that are in range keeps the values in range. -/
def UnpacksInRange (fmt : Format F) (inRange : F → StateData → Bytes → Prop) : Prop :=
  ∀ (s : StateData) kept f data len vars ret, inRange kept s data → (∀ sv ∈ s.vars, sv.data.InRange) →
    fmt.unpack kept s data len = some (f, vars, ret) → ∀ sv ∈ vars, sv.data.InRange

theorem stateDoLoad_inRange (hunpacks : UnpacksInRange fmt inRange) {noAuth : Bool} {env : Env} {st : State F Bucket}
    (hsel : ∀ kept data len, Selected fmt noAuth env st kept data len → inRange kept st.data data)
    (hvars : ∀ sv ∈ st.data.vars, sv.data.InRange)
    (halive : (stateDoLoad fmt bucketBackend noAuth env st).1.alive = true) :
    ∀ sv ∈ (stateDoLoad fmt bucketBackend noAuth env st).2.1.data.vars, sv.data.InRange := by
  have hread := @stateStorageRead_selects _ _ _ (fmt.verify st.data.magic noAuth) bucketDriver_readStops env
    st.format st.storage
  simp only [Selected] at hsel
  simp only [stateDoLoad, show bucketBackend.toDriver = bucketDriver from rfl] at halive ⊢
  generalize stateStorageRead bucketDriver (fmt.verify st.data.magic noAuth) env st.format st.storage = r at *
  split at halive
  · next hne =>
    rw [if_pos hne]
    exact hvars
  next h0 =>
  rw [if_neg h0]
  simp only [stateUnpack] at halive ⊢
  split at halive
  · cases halive
  next f vars ret hunpack =>
  split at hread
  · rw [hread] at halive
    cases halive
  · have hnotFound := hread.1
    rw [show r.ret = 0 by simpa using h0] at hnotFound
    exact absurd hnotFound (by decide)
  · next kept data len hverify =>
    obtain ⟨-, rfl, rfl, rfl⟩ := hread
    exact hunpacks _ _ _ _ _ _ _ (hsel _ _ _ ⟨halive, hverify⟩) hvars hunpack

theorem inRange_run (hunpacks : UnpacksInRange fmt inRange) {start x : Env × State F Bucket} {calls : List StateCall}
    (hstart : ∀ sv ∈ start.2.data.vars, sv.data.InRange)
    (hrun : (stateSystem fmt bucketBackend start).RunIf (LoadsInRange fmt inRange) calls x) :
    x.1.alive = true → ∀ sv ∈ x.2.data.vars, sv.data.InRange := by
  refine hrun.invariant (I := fun _ x => x.1.alive = true → ∀ sv ∈ x.2.data.vars, sv.data.InRange) ?_ ?_
  · rintro s rfl _
    exact hstart
  · intro calls x call x' hx hloads hstep
    obtain ⟨halive, rfl⟩ := hstep
    have hvars := hx halive
    cases call with
    | load => exact stateDoLoad_inRange hunpacks (hloads false rfl) hvars
    | loadNoAuth => exact stateDoLoad_inRange hunpacks (hloads true rfl) hvars
    | get name =>
      simp only [StateCall.exec]
      split <;> exact fun _ => hvars
    | set name val =>
      simp only [StateCall.exec, stateSetCall]
      split
      · exact fun _ => hvars
      · next hset => exact fun _ => stateSetVar_inRange hset hvars
    | save =>
      simp only [StateCall.exec, stateSave_data]
      exact fun _ => hvars

end

theorem rawFormat_unpacksInRange : UnpacksInRange rawFormat RawInRange := by
  intro s kept f data len vars ret hin hvars h
  simp only [rawFormat_unpack, Option.map_eq_some_iff] at h
  obtain ⟨⟨vs, r⟩, hunpack, heq⟩ := h
  cases heq
  exact backendFormatRawUnpack_inRange hunpack hin hvars

theorem dtbFormat_unpacksInRange (junk : DeviceNode → Junk) : UnpacksInRange (dtbFormat junk) DtbInRange := by
  intro s kept f data len vars ret hin hvars h
  rcases dtbUnpack_cases h with rfl | ⟨tree, vars₀, hused, himport, rfl⟩
  · exact hvars
  · exact stateFromNode_inRange himport hvars fun magic => hin tree magic hused

/-- **Values are in range** in every state that a process reaches, if the
description, the trees that it loads and the bytes of an enum32 that it loads
are, and these trees have the types of the variables. -/
theorem values_in_range {node : DeviceNode} {s : StateData} (hnode : stateFromNodeCreate node = some (s, 0))
    (hdescribed : DescribedInRange (visitsBelow .empty node.children)) (env : Env) (readonly : Bool)
    (bs : List Bucket) :
    (∀ raw calls x, (stateSystem rawFormat bucketBackend (env, stateNew raw readonly s bs)).RunIf
      (LoadsInRange rawFormat RawInRange) calls x → x.1.alive = true → ValuesInRange x.2.data.vars) ∧
    ∀ junk root calls x, (stateSystem (dtbFormat junk) bucketBackend (env, stateNew root readonly s bs)).RunIf
      (LoadsInRange (dtbFormat junk) DtbInRange) calls x → x.1.alive = true → ValuesInRange x.2.data.vars := by
  have hstart : ∀ sv ∈ s.vars, sv.data.InRange := by
    obtain ⟨magic, -, hcreate, -⟩ := stateFromNodeCreate_accepted hnode
    rw [stateConvertChildren_visits] at hcreate
    exact convertVisits_created_inRange hcreate hdescribed (by simp)
  constructor
  · intro raw calls x hrun halive
    exact valuesInRange_iff.2 (inRange_run rawFormat_unpacksInRange hstart hrun halive)
  · intro junk root calls x hrun halive
    exact valuesInRange_iff.2 (inRange_run (dtbFormat_unpacksInRange junk) hstart hrun halive)

/-- A uint8 and an enum32 of two names. -/
def rangedNode (count mode : UInt32) : DeviceNode :=
  stateNode [variableNode "count" "uint8" 0 1 [u32Property "value" count],
    variableNode "mode" "enum32" 4 4 [⟨cstr "names", (cstr "on").1 ++ [0] ++ (cstr "off").1 ++ [0]⟩,
      u32Property "default" mode]]

theorem values_in_range_set : ∃ s, stateFromNodeCreate (rangedNode 5 1) = some (s, 0) ∧
    ValuesInRange ((StateCall.set (cstr "mode") (cstr "on")).exec rawFormat bucketBackend .ok
      (stateNew (backendFormatRawCreate none) false s [])).2.data.vars := by
  obtain ⟨s, hs⟩ : ∃ s, acceptedState (rangedNode 5 1) = some s := Option.isSome_iff_exists.1 (by decide +kernel)
  have hdescribed : DescribedInRange (visitsBelow .empty (rangedNode 5 1).children) := by decide +kernel
  have hset : (acceptedState (rangedNode 5 1)).map (fun s => ((StateCall.set (cstr "mode") (cstr "on")).exec rawFormat
      bucketBackend .ok (stateNew (backendFormatRawCreate none) false s [])).1.alive) = some true := by decide +kernel
  rw [hs, Option.map_some, Option.some.injEq] at hset
  refine ⟨s, acceptedState_eq hs, ?_⟩
  exact (values_in_range (acceptedState_eq hs) hdescribed .ok false []).1 (backendFormatRawCreate none)
    [.set (cstr "mode") (cstr "on")] _ (.step (.init rfl) (fun _ h => by cases h) ⟨rfl, rfl⟩) hset

/-- The byte 44 is read as 300, and no name as that of the enum32. -/
theorem values_out_of_range : ∃ s, stateFromNodeCreate (rangedNode 300 2) = some (s, 0) ∧
    ¬ ValuesInRange s.vars ∧ stateGetVar s.vars (cstr "count") = some (some (cstr "300")) ∧
      stateGetVar s.vars (cstr "mode") = none := by
  obtain ⟨s, hs⟩ : ∃ s, acceptedState (rangedNode 300 2) = some s := Option.isSome_iff_exists.1 (by decide +kernel)
  have hdata : (acceptedState (rangedNode 300 2)).map (fun s => s.vars.map fun sv => sv.data) =
      some [.uint8 300 0, .enum32 2 2 [cstr "on", cstr "off"]] := by decide +kernel
  have hget : (acceptedState (rangedNode 300 2)).map (fun s =>
      (stateGetVar s.vars (cstr "count"), stateGetVar s.vars (cstr "mode"))) =
      some (some (some (cstr "300")), none) := by decide +kernel
  rw [hs, Option.map_some, Option.some.injEq] at hdata hget
  rw [Prod.mk.injEq] at hget
  refine ⟨s, acceptedState_eq hs, fun h => ?_, hget⟩
  obtain ⟨sv, hsv, hcount⟩ := List.mem_map.1 (show VarData.uint8 300 0 ∈ s.vars.map fun sv => sv.data by simp [hdata])
  have hin := (h sv hsv).1
  rw [hcount] at hin
  exact absurd (show (300 : UInt32).toNat ≤ 255 from hin) (by decide)

end DtUtils
