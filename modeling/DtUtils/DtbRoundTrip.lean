/-
Packing in the dtb format and unpacking into a new state of the same
description. A string is packed as its copy has it, which only setting it
renews: the values are the same exactly if every string reads as its copy, or,
without one, as its default (`dtb_round_trip_iff`).
-/
import DtUtils.Export
import DtUtils.FailedLoad
import DtUtils.Writes

namespace DtUtils
open Lib

/-! ## What a description sets up -/

/-- The node `v` of a description that came to these variables. -/
structure Described (vars : List StateVariable) (v : CString × DeviceNode) : Prop where
  typed : ∀ typeName, ofPropertyReadString v.2 (cstr "type") = .ok typeName →
    ∃ vtype, stateFindTypeByName typeName = some vtype ∧ ∃ sv ∈ vars, sv.name = v.1 ∧ sv.data.type = vtype
  untyped : ∀ e, ofPropertyReadString v.2 (cstr "type") = .error e → e = -EINVAL ∧ v.2.children.isEmpty = false

theorem Described.mono {vars vars' : List StateVariable} {v : CString × DeviceNode} (h : Described vars v)
    (hsub : ∀ sv ∈ vars, sv ∈ vars') : Described vars' v where
  typed typeName ht := by
    obtain ⟨vtype, hfind, sv, hsv, hname⟩ := h.typed typeName ht
    exact ⟨vtype, hfind, sv, hsub sv hsv, hname⟩
  untyped := h.untyped

theorem stateStringCopyToRaw_kept (string : StateString) (src : CString) :
    (stateStringCopyToRaw string src).1.value = string.value ∧
      (stateStringCopyToRaw string src).1.valueDefault = string.valueDefault := by
  rw [stateStringCopyToRaw]
  split <;> exact ⟨rfl, rfl⟩

theorem stateStringImport_kept {node : DeviceNode} {s s' : StateString} {ret : Int}
    (h : stateStringImport node s = some (s', ret)) :
    s'.value = s.value ∧ s'.valueDefault = (stateStringImportDefault node s).valueDefault ∧
      ∀ d, ret = 0 → s'.valueDefault = .str d → d.1.length ≤ s.raw.length := by
  have hvalue (s : StateString) (d : Option CString) : (stateStringImportValue node s d).1.value = s.value ∧
      (stateStringImportValue node s d).1.valueDefault = s.valueDefault := by
    rw [stateStringImportValue]
    split
    · exact ⟨rfl, rfl⟩
    · exact stateStringCopyToRaw_kept _ _
  have hcopy : (stateStringImportDefault node s).value = s.value := by
    rw [stateStringImportDefault]
    split <;> rfl
  have hraw := stateStringImportDefault_raw node s
  simp only [stateStringImport] at h
  generalize stateStringImportDefault node s = s₁ at h hcopy hraw ⊢
  split at h
  · cases h
  · next d hd =>
    split at h
    · cases h
      exact ⟨hcopy, rfl, fun _ h0 => absurd h0 (by decide)⟩
    · next hroom =>
      obtain ⟨h1, h2⟩ := hvalue s₁ (some d)
      rw [Option.some.inj h] at h1 h2
      refine ⟨h1.trans hcopy, h2, fun d' _ hd' => ?_⟩
      rw [h2, hd] at hd'
      cases hd'
      rw [← hraw]
      omega
  · next d hd =>
    split at h
    · cases h
      exact ⟨hcopy, rfl, fun _ h0 => absurd h0 (by decide)⟩
    · obtain ⟨h1, h2⟩ := hvalue s₁ (some d)
      rw [Option.some.inj h] at h1 h2
      refine ⟨h1.trans hcopy, h2, fun d' _ hd' => ?_⟩
      rw [h2, hd] at hd'
      cases hd'
  · next hd =>
    obtain ⟨h1, h2⟩ := hvalue s₁ none
    rw [Option.some.inj h] at h1 h2
    refine ⟨h1.trans hcopy, h2, fun d' _ hd' => ?_⟩
    rw [h2, hd] at hd'
    cases hd'

theorem VariableType.import_fresh {vtype : VariableType} {node : DeviceNode} {data₀ data : VarData}
    (hcreate : vtype.create node = some (.ok data₀)) (himport : vtype.import node data₀ = some (data, 0)) :
    data.Fresh := by
  obtain ⟨-, htype⟩ := VariableType.create_fits hcreate
  cases data₀ with
  | string s₀ =>
    obtain rfl : vtype = .string := htype.symm
    have hzeroed : s₀.value = none ∧ s₀.valueDefault = .null := by
      simp only [VariableType.create] at hcreate
      split at hcreate
      · cases hcreate
      · split at hcreate <;> cases hcreate
        exact ⟨rfl, rfl⟩
    simp only [VariableType.import, Option.map_eq_some_iff] at himport
    obtain ⟨⟨s, ret⟩, himport, heq⟩ := himport
    cases heq
    obtain ⟨hvalue, hdefault, hroom⟩ := stateStringImport_kept himport
    refine ⟨hvalue.trans hzeroed.1, ?_⟩
    have hlen := stateStringImport_length himport
    rw [stateStringImportDefault] at hdefault
    split at hdefault
    · next d hd => exact .inr ⟨d, hdefault, by rw [hlen]; exact hroom d rfl hdefault⟩
    · exact .inl (hdefault.trans hzeroed.2)
  | _ =>
    cases VariableType.import_sameKind himport
    trivial

theorem stateConvertVariable_described {name : CString} {node : DeviceNode} {vars vars' : List StateVariable}
    (h : stateConvertVariable true name node vars = some (vars', 0)) (hfresh : ∀ sv ∈ vars, sv.data.Fresh) :
    Described vars' (name, node) ∧ (∀ sv ∈ vars, sv ∈ vars') ∧ ∀ sv ∈ vars', sv.data.Fresh := by
  rcases stateConvertVariable_create h with ⟨rfl, herror⟩ | ⟨typeName, vtype, htype, hfind, hcreate⟩
  · obtain ⟨e, he⟩ := herror rfl
    refine ⟨⟨fun _ ht => ?_, fun e' he' => ?_⟩, fun _ hsv => hsv, hfresh⟩
    · rw [he] at ht
      cases ht
    · rw [he] at he'
      cases he'
      simp only [stateConvertVariable, he] at h
      split at h
      · next hparent => exact ⟨hparent.2, by simpa using hparent.1⟩
      · obtain ⟨-, h0⟩ := Prod.mk.inj (Option.some.inj h)
        exact absurd h0 (ofPropertyReadString_error he)
  · rcases stateCreateVariable_cases hcreate with ⟨-, hne⟩ | ⟨data₀, start, size, data, hmade, -, -, himport, rfl⟩
    · exact absurd rfl hne
    have hmem : ∀ sv, sv ∈ stateAddVar vars ⟨name, start, data⟩ ↔ sv = ⟨name, start, data⟩ ∨ sv ∈ vars := fun sv =>
      (stateAddVar_perm vars _).mem_iff.trans List.mem_cons
    have hdata : data.type = vtype :=
      (VariableType.import_sameKind himport).type.symm.trans (VariableType.create_fits hmade).2
    refine ⟨⟨fun _ ht => ?_, fun _ he => ?_⟩, fun sv hsv => (hmem sv).2 (.inr hsv), fun sv hsv => ?_⟩
    · rw [htype] at ht
      cases ht
      exact ⟨vtype, hfind, _, (hmem _).2 (.inl rfl), rfl, hdata⟩
    · rw [htype] at he
      cases he
    · rcases (hmem sv).1 hsv with rfl | hsv
      · exact VariableType.import_fresh hmade himport
      · exact hfresh sv hsv

theorem convertVisits_described {vs : List (CString × DeviceNode)} {vars vars' : List StateVariable}
    (h : convertVisits true vars vs = some (vars', 0)) (hfresh : ∀ sv ∈ vars, sv.data.Fresh) :
    (∀ v ∈ vs, Described vars' v) ∧ (∀ sv ∈ vars, sv ∈ vars') ∧ ∀ sv ∈ vars', sv.data.Fresh := by
  induction vs generalizing vars vars' with
  | nil =>
    cases h
    exact ⟨by simp, fun _ hsv => hsv, hfresh⟩
  | cons v vs ih =>
    obtain ⟨name, node⟩ := v
    simp only [convertVisits, Option.bind_eq_bind, Option.bind_eq_some_iff] at h
    obtain ⟨⟨vars₁, r⟩, hfirst, h⟩ := h
    simp only at h
    split at h
    · next hne =>
      cases h
      exact absurd rfl hne
    · next h0 =>
      obtain rfl : r = 0 := by simpa using h0
      obtain ⟨hnode, hsub, hfresh₁⟩ := stateConvertVariable_described hfirst hfresh
      obtain ⟨hrest, hsub', hfresh'⟩ := ih h hfresh₁
      exact ⟨List.forall_mem_cons.2 ⟨hnode.mono hsub', hrest⟩, fun sv hsv => hsub' sv (hsub sv hsv), hfresh'⟩


/-! ## Between two calls -/

/-- The variables of a state that was set up with `vars₀`. -/
def VarsLater (vars₀ vars : List StateVariable) : Prop :=
  List.Forall₂ (fun a c => c.name = a.name ∧ c.start = a.start ∧ a.data.Later c.data) vars₀ vars

theorem VarData.Fresh.later {a : VarData} (h : a.Fresh) : a.Later a := by
  cases a with
  | string s => exact .string rfl (.inl rfl) (by simp [StateString.Fresh.value h])
  | _ => constructor

theorem VarData.Later.set {a d : VarData} (h : a.Later d) (val : CString) : a.Later (d.set val).1 := by
  cases h with
  | uint8 =>
    simp only [VarData.set]
    split <;> exact .uint8
  | uint32 => exact .uint32
  | enum32 =>
    simp only [VarData.set]
    split <;> exact .enum32
  | mac =>
    simp only [VarData.set]
    split <;> exact .mac
  | @string s₀ s hlen hdefault hvalue =>
    have hkept := stateStringCopyToRaw_kept s val
    have hsize := stateStringCopyToRaw_length s val
    simp only [VarData.set]
    split
    · exact .string hlen hdefault hvalue
    · next hret =>
      refine .string (hsize.trans hlen) (by rw [← hkept.2] at hdefault; exact hdefault) fun v hv => ?_
      cases hv
      show val.1.length ≤ (stateStringCopyToRaw s val).1.raw.length
      rw [hsize]
      by_contra hlong
      refine hret ?_
      rw [stateStringCopyToRaw, dif_neg hlong]
      exact (by decide : -EILSEQ ≠ 0)

@[simp] theorem StateString.freeDefault_raw (s : StateString) : s.freeDefault.raw = s.raw := by
  rw [freeDefault]
  split <;> rfl

@[simp] theorem StateString.freeDefault_copy (s : StateString) : s.freeDefault.value = s.value := by
  rw [freeDefault]
  split <;> rfl

theorem StateString.freeDefault_default {s s' : StateString} (h : s'.valueDefault = s.valueDefault) :
    s'.freeDefault.valueDefault = s.freeDefault.valueDefault := by
  rw [freeDefault, freeDefault, h]
  split
  · rfl
  · exact h

theorem VarData.Later.freeDefault {a d : VarData} (h : a.Later d) (hfresh : a.Fresh) : a.Later d.freeDefault := by
  cases h with
  | @string s₀ s hlen hdefault hvalue =>
    have hkept : s.freeDefault = s := by
      rw [StateString.freeDefault]
      split
      · next t ht =>
        rw [ht] at hdefault
        rcases hfresh.valueDefault with hnull | ⟨s', hs', -⟩
        · rw [hnull] at hdefault
          simp at hdefault
        · rw [hs'] at hdefault
          simp at hdefault
      · rfl
    rw [VarData.freeDefault, hkept]
    exact .string hlen hdefault hvalue
  | _ => constructor

theorem VarData.Later.import {a d d' : VarData} {vtype : VariableType} {node : DeviceNode} {ret : Int}
    (h : a.Later d.freeDefault) (himport : vtype.import node d = some (d', ret)) :
    a.Later (d'.inTree node).freeDefault := by
  cases d with
  | string s =>
    cases vtype <;> simp only [VariableType.import, Option.map_eq_some_iff, Prod.mk.injEq, reduceCtorEq] at himport
    obtain ⟨⟨s', ret'⟩, himport, rfl, -⟩ := himport
    obtain ⟨hvalue, hdefault, -⟩ := stateStringImport_kept himport
    have hlen := stateStringImport_length himport
    cases h with
    | @string s₀ _ hlen₀ hdefault₀ hcopy₀ =>
      rw [StateString.freeDefault_raw] at hlen₀ hcopy₀
      rw [StateString.freeDefault_copy, ← hvalue, ← hlen] at hcopy₀
      simp only [VarData.inTree]
      split
      · next t ht => exact .string (hlen.trans hlen₀) (.inr rfl) hcopy₀
      · next e he =>
        rw [stateStringImportDefault, he] at hdefault
        refine .string ?_ (by rw [StateString.freeDefault_default hdefault]; exact hdefault₀) ?_
        · rw [StateString.freeDefault_raw]
          exact hlen.trans hlen₀
        · rw [StateString.freeDefault_raw, StateString.freeDefault_copy]
          exact hcopy₀
  | _ =>
    cases VariableType.import_sameKind himport
    cases h
    constructor

section
variable {vars₀ vars vars' : List StateVariable}

theorem VarsLater.refl (hfresh : ∀ sv ∈ vars₀, sv.data.Fresh) : VarsLater vars₀ vars₀ :=
  List.forall₂_same.2 fun sv hsv => ⟨rfl, rfl, (hfresh sv hsv).later⟩

theorem VarsLater.set {name val : CString} {set : Bool} {ret : Int} (h : VarsLater vars₀ vars)
    (hset : stateSetVar vars name val = some (vars', set, ret)) : VarsLater vars₀ vars' := by
  induction h generalizing vars' set ret with
  | nil =>
    cases hset
    exact .nil
  | @cons a sv vars₀ vars hsv hvars ih =>
    rw [stateSetVar] at hset
    split at hset
    · split at hset
      · cases hset
      · split at hset
        · cases hset
          exact .cons hsv hvars
        · cases hset
          exact .cons ⟨hsv.1, hsv.2.1, hsv.2.2.set val⟩ hvars
    · obtain ⟨⟨vs, s, r⟩, hrest, heq⟩ := Option.map_eq_some_iff.1 hset
      cases heq
      exact .cons hsv (ih hrest)

/-- While a tree is imported, the variables are as if it were freed already. -/
def Importing (vars₀ vars : List StateVariable) : Prop := VarsLater vars₀ (vars.map StateVariable.freeDefault)

theorem VarsLater.importing (h : VarsLater vars₀ vars) (hfresh : ∀ sv ∈ vars₀, sv.data.Fresh) :
    Importing vars₀ vars := by
  refine List.forall₂_map_right_iff.2 ?_
  induction h with
  | nil => exact .nil
  | cons hsv _ ih =>
    rw [List.forall_mem_cons] at hfresh
    exact .cons ⟨hsv.1, hsv.2.1, hsv.2.2.freeDefault hfresh.1⟩ (ih hfresh.2)

theorem Importing.variable {name : CString} {node : DeviceNode} {vtype : VariableType} {ret : Int}
    (h : Importing vars₀ vars) (himport : stateImportVariable name node vtype vars = some (vars', ret)) :
    Importing vars₀ vars' := by
  induction vars generalizing vars₀ vars' ret with
  | nil =>
    cases himport
    exact h
  | cons sv vars ih =>
    rw [Importing, VarsLater, List.map_cons, List.forall₂_cons_right_iff] at h
    obtain ⟨a, vars₀, hsv, hvars, rfl⟩ := h
    rw [stateImportVariable] at himport
    split at himport
    · obtain ⟨⟨data, r⟩, hdata, heq⟩ := Option.map_eq_some_iff.1 himport
      cases heq
      exact .cons ⟨hsv.1, hsv.2.1, hsv.2.2.import hdata⟩ hvars
    · obtain ⟨⟨vs, r⟩, hrest, heq⟩ := Option.map_eq_some_iff.1 himport
      cases heq
      exact .cons hsv (ih hvars hrest)

theorem Importing.visits {vs : List (CString × DeviceNode)} {ret : Int} (h : Importing vars₀ vars)
    (hwalk : convertVisits false vars vs = some (vars', ret)) : Importing vars₀ vars' := by
  induction vs generalizing vars ret with
  | nil =>
    cases hwalk
    exact h
  | cons v vs ih =>
    obtain ⟨name, node⟩ := v
    simp only [convertVisits, Option.bind_eq_bind, Option.bind_eq_some_iff] at hwalk
    obtain ⟨⟨vars₁, r⟩, hfirst, hwalk⟩ := hwalk
    have h₁ : Importing vars₀ vars₁ := by
      simp only [stateConvertVariable, Bool.false_eq_true, if_false] at hfirst
      split at hfirst
      · split at hfirst <;>
        · cases hfirst
          exact h
      · split at hfirst
        · cases hfirst
          exact h
        · exact h.variable hfirst
    simp only at hwalk
    split at hwalk
    · cases hwalk
      exact h₁
    · exact ih h₁ hwalk

end

/-- What the calls of a process make of a state. -/
structure StateData.Later (s₀ s : StateData) : Prop where
  magic : s.magic = s₀.magic
  node : s.node = s₀.node
  vars : VarsLater s₀.vars s.vars

theorem dtbUnpack_later {root root' : DtbFormat} {s₀ s : StateData} {buf : Bytes} {len ret : Int}
    {vars : List StateVariable} (hfresh : ∀ sv ∈ s₀.vars, sv.data.Fresh) (h : s₀.Later s)
    (hunpack : dtbUnpack root s buf len = some (root', vars, ret)) : VarsLater s₀.vars vars := by
  rcases dtbUnpack_cases hunpack with rfl | ⟨tree, vars₁, -, himport, rfl⟩
  · exact h.vars
  have hstart := h.vars.importing hfresh
  rw [stateFromNode] at himport
  split at himport
  · cases himport
    exact hstart
  · split at himport
    · cases himport
      exact hstart
    · rw [stateConvertChildren_visits] at himport
      exact hstart.visits himport

section
variable {B : Type} {d : Backend B} {junk : DeviceNode → Junk} {s₀ : StateData}

theorem stateDoLoad_later {noAuth : Bool} {env : Env} {st : State DtbFormat B}
    (hfresh : ∀ sv ∈ s₀.vars, sv.data.Fresh) (h : s₀.Later st.data) :
    s₀.Later (stateDoLoad (dtbFormat junk) d noAuth env st).2.1.data := by
  simp only [stateDoLoad]
  split
  · exact h
  simp only [stateUnpack]
  split
  · exact h
  · next hunpack => exact ⟨h.magic, h.node, dtbUnpack_later hfresh h hunpack⟩

theorem later_run {start x : Env × State DtbFormat B} {calls : List StateCall}
    (hfresh : ∀ sv ∈ start.2.data.vars, sv.data.Fresh) (hrun : (stateSystem (dtbFormat junk) d start).Run calls x) :
    start.2.data.Later x.2.data := by
  have hinv : (stateSystem (dtbFormat junk) d start).Invariant fun _ x => start.2.data.Later x.2.data := by
    refine ⟨fun hinit => ?_, fun {_ x call _} hx hstep => ?_⟩
    · rw [show _ = start from hinit]
      exact ⟨rfl, rfl, .refl hfresh⟩
    · obtain ⟨-, rfl⟩ := hstep
      cases call with
      | load | loadNoAuth => exact stateDoLoad_later hfresh hx
      | get name =>
        simp only [StateCall.exec]
        split <;> exact hx
      | set name val =>
        simp only [StateCall.exec, stateSetCall]
        split
        · exact hx
        · next hset => exact ⟨hx.magic, hx.node, hx.vars.set hset⟩
      | save =>
        simp only [StateCall.exec, stateSave_data]
        exact hx
  exact hinv.run hrun

end

/-! ## The reload -/

/-- What the variable `name` of a new state reads as once an export of `vars`
is imported. -/
def stateReloadVar (vars₀ vars : List StateVariable) (name : CString) : Option (Option CString) :=
  match stateFindVar vars₀ name, stateFindVar vars name with
  | some a, some c => (a.data.reloaded c.data).map some
  | _, _ => some none

/-- Of a new state, the variables of these names have been imported, and no
others. -/
def Reloading (report : CString → Option (Option CString)) (done : List CString) (vars₀ cur : List StateVariable) :
    Prop :=
  List.Forall₂ (fun a b => b.name = a.name ∧ (a.name ∈ done → b.data.get.map some = report a.name) ∧
    (a.name ∉ done → b = a)) vars₀ cur

@[simp] theorem VarData.inTree_get (node : DeviceNode) (data : VarData) : (data.inTree node).get = data.get := by
  cases data with
  | string s =>
    rw [inTree]
    split <;> rfl
  | _ => rfl

@[simp] theorem VarData.freeDefault_get (data : VarData) : data.freeDefault.get = data.get := by
  cases data with
  | string s => exact congrArg (fun raw => some (CString.of raw)) s.freeDefault_raw
  | _ => rfl

theorem stateFindVar_of_mem {vars : List StateVariable} (hnodup : (vars.map (·.name)).Nodup) {sv : StateVariable}
    (hsv : sv ∈ vars) : stateFindVar vars sv.name = some sv := by
  obtain ⟨i, hi⟩ := List.mem_iff_getElem?.1 hsv
  obtain ⟨before, behind, rfl, -, hbefore⟩ := split_of_nodup hnodup hi
  exact stateFindVar_append hbefore rfl

section
variable {report : CString → Option (Option CString)} {done : List CString} {vars₀ cur : List StateVariable}

theorem Reloading.other {name : CString} (h : Reloading report done vars₀ cur) (hother : ∀ sv ∈ vars₀, sv.name ≠ name) :
    Reloading report (name :: done) vars₀ cur := by
  induction h with
  | nil => exact .nil
  | @cons a b vars₀ cur hab _ ih =>
    rw [List.forall_mem_cons] at hother
    refine .cons ⟨hab.1, fun hmem => hab.2.1 ?_, fun hno => hab.2.2 fun hmem => hno (.tail _ hmem)⟩ (ih hother.2)
    exact (List.mem_cons.1 hmem).resolve_left hother.1

theorem Reloading.variable {node : DeviceNode} {vtype : VariableType} {sv : StateVariable} {out : VarData}
    (h : Reloading report done vars₀ cur) (hnodup : (vars₀.map (·.name)).Nodup) (hsv : sv ∈ vars₀)
    (hdone : sv.name ∉ done) (himport : vtype.import node sv.data = some (out, 0))
    (hget : out.get.map some = report sv.name) :
    ∃ cur', stateImportVariable sv.name node vtype cur = some (cur', 0) ∧
      Reloading report (sv.name :: done) vars₀ cur' := by
  induction h with
  | nil => cases hsv
  | @cons a b vars₀ cur hab hrest ih =>
    rw [List.map_cons, List.nodup_cons] at hnodup
    rcases List.mem_cons.1 hsv with rfl | hsv
    · obtain rfl := hab.2.2 hdone
      rw [stateImportVariable, if_pos rfl, himport]
      refine ⟨_, rfl, .cons ⟨rfl, fun _ => ?_, fun hno => absurd List.mem_cons_self hno⟩ (Reloading.other hrest ?_)⟩
      · simpa using hget
      · intro x hx hname
        exact hnodup.1 (hname ▸ List.mem_map_of_mem hx)
    · have hne : a.name ≠ sv.name := fun hname => hnodup.1 (hname ▸ List.mem_map_of_mem hsv)
      obtain ⟨cur', hcur', hreload⟩ := ih hnodup.2 hsv
      rw [stateImportVariable, if_neg (by rw [hab.1]; exact hne), hcur']
      refine ⟨_, rfl, .cons ⟨hab.1, fun hmem => hab.2.1 ?_, fun hno => hab.2.2 fun hmem => hno (.tail _ hmem)⟩ hreload⟩
      exact (List.mem_cons.1 hmem).resolve_left hne

theorem Reloading.reports (h : Reloading report done vars₀ cur) (hdone : ∀ sv ∈ vars₀, sv.name ∈ done) (name : CString)
    (hreport : stateFindVar vars₀ name = none → report name = some none) : stateGetVar cur name = report name := by
  rcases stateFindVar_forall₂ (fun _ _ hab => hab.1) h name with ⟨hnone, hcur⟩ | ⟨a, b, ha, hb, -, hget, -⟩
  · rw [stateGetVar, hcur, hreport hnone]
  · have hname : a.name = name := by simpa using List.find?_some ha
    rw [stateGetVar, hb, ← hname]
    exact hget (hdone a (List.mem_of_find?_eq_some ha))

end

section
variable {vars₀ vars cur : List StateVariable} {done : List CString}

/-- The node that was written for a variable gives it the value that
`stateReloadVar` says; other nodes are passed. -/
theorem Reloading.visit {v v' : CString × DeviceNode} (h : Reloading (stateReloadVar vars₀ vars) done vars₀ cur)
    (hnodup : (vars₀.map (·.name)).Nodup) (hfresh : ∀ sv ∈ vars₀, sv.data.Fresh) (hlater : VarsLater vars₀ vars)
    (hdescribed : Described vars₀ v) (hexported : Exported vars v v')
    (hdone : ∀ name ∈ variableNames [v], name ∉ done) :
    ∃ cur', stateConvertVariable false v'.1 v'.2 cur = some (cur', 0) ∧
      Reloading (stateReloadVar vars₀ vars) (variableNames [v] ++ done) vars₀ cur' := by
  obtain ⟨name, node⟩ := v
  cases htype : ofPropertyReadString node (cstr "type") with
  | error e =>
    obtain ⟨-, hchildren⟩ := hdescribed.untyped e htype
    have hnone : ofPropertyReadString v'.2 (cstr "type") = .error (-EINVAL) := by
      refine ofPropertyReadString_none ?_
      rw [ofFindProperty, hexported.untyped e htype]
      rfl
    have hparent : ¬ v'.2.children.isEmpty := by
      rw [hexported.children, hchildren]
      decide
    have hnames : variableNames [(name, node)] = [] := by simp [variableNames, htype, Except.isOk, Except.toBool]
    refine ⟨cur, ?_, by rw [hnames]; exact h⟩
    simp only [stateConvertVariable, hnone]
    rw [if_pos ⟨by simpa using hparent, trivial⟩]
  | ok typeName =>
    obtain ⟨vtype, hfind, sv, hsv, hname, hkind⟩ := hdescribed.typed typeName htype
    obtain rfl : sv.name = name := hname
    have hnames : variableNames [(sv.name, node)] = [sv.name] := by
      simp [variableNames, htype, Except.isOk, Except.toBool]
    rw [hnames] at hdone ⊢
    -- The same variable, where it was exported.
    have hfound := stateFindVar_of_mem hnodup hsv
    obtain ⟨a, c, ha, hc, -, -, hac⟩ :=
      (stateFindVar_forall₂ (fun _ _ hac => hac.1) hlater sv.name).resolve_left (by simp [hfound])
    obtain rfl : sv = a := Option.some.inj (hfound.symm.trans ha)
    obtain ⟨vtype', properties, hfind', hexport, phandle, hnode⟩ := hexported.typed typeName htype c hc
    obtain rfl : vtype = vtype' := Option.some.inj (hfind.symm.trans hfind')
    obtain rfl : vtype = c.data.type := hkind.symm.trans hac.sameKind.type
    obtain ⟨out, himport, hget⟩ : ∃ out, c.data.type.import
        (exportedNode node.name phandle c.data.type c properties v'.2.children) sv.data = some (out, 0) ∧
          out.get = sv.data.reloaded c.data := VariableType.import_export (hfresh sv hsv) hac hexport
    rw [← hnode] at himport
    have hreport : out.get.map some = stateReloadVar vars₀ vars sv.name := by simp only [stateReloadVar, ha, hc, hget]
    obtain ⟨cur', hcur', hreload⟩ := h.variable hnodup hsv (hdone _ List.mem_cons_self) himport hreport
    have htype' : ofPropertyReadString v'.2 (cstr "type") = .ok c.data.type.typeName := by
      rw [hnode]
      exact exportedNode_type
    rw [stateFindTypeByName_eq hfind] at hfind
    refine ⟨cur', ?_, hreload⟩
    simp only [stateConvertVariable, htype', hfind, Bool.false_eq_true, if_false, hexported.path]
    exact hcur'

theorem Reloading.visits {vs vs' : List (CString × DeviceNode)}
    (h : Reloading (stateReloadVar vars₀ vars) done vars₀ cur) (hnodup : (vars₀.map (·.name)).Nodup)
    (hfresh : ∀ sv ∈ vars₀, sv.data.Fresh) (hlater : VarsLater vars₀ vars) (hdescribed : ∀ v ∈ vs, Described vars₀ v)
    (hexported : List.Forall₂ (Exported vars) vs vs') (hdone : (variableNames vs).Nodup)
    (hnew : ∀ name ∈ variableNames vs, name ∉ done) :
    ∃ cur' done', convertVisits false cur vs' = some (cur', 0) ∧ (∀ name ∈ variableNames vs, name ∈ done') ∧
      (∀ name ∈ done, name ∈ done') ∧ Reloading (stateReloadVar vars₀ vars) done' vars₀ cur' := by
  induction hexported generalizing done cur with
  | nil => exact ⟨cur, done, rfl, by simp [variableNames], fun _ hname => hname, h⟩
  | @cons v v' vs vs' hv _ ih =>
    have hsplit : variableNames (v :: vs) = variableNames [v] ++ variableNames vs := by
      simp only [variableNames, ← List.map_append, ← List.filter_append]
      rfl
    rw [hsplit] at hdone hnew
    rw [List.forall_mem_cons] at hdescribed
    obtain ⟨-, hdone', hdisjoint⟩ := List.nodup_append.1 hdone
    obtain ⟨cur₁, hfirst, h₁⟩ := h.visit hnodup hfresh hlater hdescribed.1 hv
      fun name hname => hnew name (List.mem_append_left _ hname)
    have hnew₁ : ∀ name ∈ variableNames vs, name ∉ variableNames [v] ++ done := by
      intro name hname hmem
      rcases List.mem_append.1 hmem with hmem | hmem
      · exact hdisjoint name hmem name hname rfl
      · exact hnew name (List.mem_append_right _ hname) hmem
    obtain ⟨cur', done', hrest, hnames, hkept, h'⟩ := ih h₁ hdescribed.2 hdone' hnew₁
    refine ⟨cur', done', ?_, ?_, fun name hname => hkept name (List.mem_append_right _ hname), h'⟩
    · simp only [convertVisits, hfirst, Option.bind_eq_bind, Option.bind_some]
      exact hrest
    · rw [hsplit]
      intro name hname
      rcases List.mem_append.1 hname with hname | hname
      · exact hkept name (List.mem_append_left _ hname)
      · exact hnames name hname

end

/-! ## Packing -/

/-- Every string reads as its copy, or, without one, as its default, or, with
neither, as it was described. -/
def StringsCurrent (vars₀ vars : List StateVariable) : Prop :=
  ∀ name a c s₀ s, stateFindVar vars₀ name = some a → stateFindVar vars name = some c → a.data = .string s₀ →
    c.data = .string s → CString.of s.raw = s₀.reloaded s

/-- Verifying the blob and unpacking it into the new state `s` succeeds, and
every variable reads as in `vars`. -/
def DtbReloads (s : StateData) (blob : Bytes) (vars : List StateVariable) : Prop :=
  ∃ kept len root vars', dtbVerify none blob blob.length = some (kept, 0, len) ∧
    dtbUnpack kept s blob len = some (root, vars', 0) ∧ SameReports vars' vars

theorem stringsCurrent_iff {vars₀ vars : List StateVariable} (h : VarsLater vars₀ vars) :
    (∀ name, stateReloadVar vars₀ vars name = stateGetVar vars name) ↔ StringsCurrent vars₀ vars := by
  constructor
  · intro hall name a c s₀ s ha hc hs₀ hs
    have hname := hall name
    simp only [stateReloadVar, stateGetVar, ha, hc, hs₀, hs, VarData.reloaded, VarData.get, Option.map_some,
      Option.some.injEq] at hname
    exact hname.symm
  · intro hcurrent name
    rcases stateFindVar_forall₂ (fun _ _ hac => hac.1) h name with ⟨ha, hc⟩ | ⟨a, c, ha, hc, -, -, hac⟩
    · rw [stateReloadVar, stateGetVar, ha, hc]
    · simp only [stateReloadVar, stateGetVar, ha, hc]
      congr 1
      generalize hadata : a.data = adata at hac
      generalize hcdata : c.data = cdata at hac
      cases hac with
      | @string s₀ s _ _ _ => exact congrArg some (hcurrent name a c s₀ s ha hc hadata hcdata).symm
      | _ => rfl

theorem stateToNode_exported {s : StateData} {new : DeviceNode} (h : stateToNode s = some (.ok new)) :
    ∃ children, new = .node .empty 0 [u32Property "magic" s.magic] children ∧
      List.Forall₂ (Exported s.vars) (visitsBelow .empty s.node.children) (visitsBelow .empty children) := by
  simp only [stateToNode, Option.bind_eq_bind, Option.bind_eq_some_iff] at h
  obtain ⟨converted, hconvert, h⟩ := h
  cases converted with
  | error e => cases h
  | ok children =>
    cases h
    exact ⟨children, rfl, (stateConvertChildrenToNode_exported hconvert).1⟩

theorem stateToNode_names {P : CString → Prop} {s : StateData} {new : DeviceNode} (hempty : P .empty)
    (hnames : ∀ v ∈ visitsBelow .empty s.node.children, P v.2.name) (h : stateToNode s = some (.ok new)) :
    new.All fun node => P node.name ∧ ∀ p ∈ node.properties, RoomyName p.name := by
  obtain ⟨children, rfl, hexported⟩ := stateToNode_exported h
  refine ⟨⟨hempty, ?_⟩, @allNodes_of_visits _ .empty children fun v' hv' => ?_⟩
  · exact List.forall_mem_singleton.2 (show RoomyName (cstr "magic") by decide)
  · obtain ⟨v, hv, hvv'⟩ := forall₂_mem_right hexported hv'
    exact ⟨hvv'.name ▸ hnames v hv, hvv'.roomy⟩

theorem dtbPack_reread {junk : DeviceNode → Junk} {root root' : DtbFormat} {s : StateData} {blob : Bytes}
    (hnames : ∀ v ∈ visitsBelow .empty s.node.children, CopiedName v.2.name)
    (hgrow : ∀ new, stateToNode s = some (.ok new) → NeverGrows (junk new) new)
    (hpack : dtbPack junk root s = some (root', .ok blob)) :
    ∃ phandle children, be32At blob 4 = some blob.length ∧
      ofUnflattenDtb blob = some (.ok (.node .empty phandle [u32Property "magic" s.magic] children)) ∧
      List.Forall₂ (Exported s.vars) (visitsBelow .empty s.node.children) (visitsBelow .empty children) := by
  simp only [dtbPack, Option.bind_eq_bind, Option.bind_eq_some_iff] at hpack
  obtain ⟨tree, htree, hpack⟩ := hpack
  cases tree with
  | error e => cases hpack
  | ok new =>
    obtain ⟨fdt, hflat, hpack⟩ := Option.bind_eq_some_iff.1 hpack
    cases fdt with
    | none => cases hpack
    | some fdt =>
      obtain ⟨len, hlen, hpack⟩ := Option.bind_eq_some_iff.1 hpack
      cases hpack
      obtain ⟨n, hn, hle, htotal, hunflatten⟩ :=
        flatten_take (stateToNode_names (Nat.zero_le _) hnames htree) (hgrow new htree) hflat
      obtain rfl : n = len := Option.some.inj (hn.symm.trans hlen)
      have hlength : (fdt.take n).length = n := List.length_take_of_le hle
      obtain ⟨children, rfl, hexported⟩ := stateToNode_exported htree
      refine ⟨_, rereadNodes children, by rw [hlength]; exact htotal, hunflatten, ?_⟩
      rw [visitsBelow_reread]
      exact List.forall₂_map_right_iff.2 (hexported.imp fun _ _ h => h.reread)

theorem ofPropertyReadU32_magic {name : CString} {phandle magic : UInt32} {children : List DeviceNode} :
    ofPropertyReadU32 (.node name phandle [u32Property "magic" magic] children) (cstr "magic") = .ok magic :=
  ofPropertyReadU32_eq (p := u32Property "magic" magic) rfl rfl

/-- A packed state is unpacked into a new one of the same description. -/
theorem dtb_reload {junk : DeviceNode → Junk} {root root' : DtbFormat} {node : DeviceNode} {s s' : StateData}
    {blob : Bytes} (hnode : stateFromNodeCreate node = some (s, 0)) (hnodup : (s.vars.map (·.name)).Nodup)
    (hnames : ∀ v ∈ visitsBelow .empty node.children, CopiedName v.2.name) (hlater : s.Later s')
    (hgrow : ∀ new, stateToNode s' = some (.ok new) → NeverGrows (junk new) new)
    (hpack : dtbPack junk root s' = some (root', .ok blob)) :
    ∃ kept len vars', dtbVerify none blob blob.length = some (kept, 0, len) ∧
      dtbUnpack kept s blob len = some (none, vars', 0) ∧
        ∀ name, stateGetVar vars' name = stateReloadVar s.vars s'.vars name := by
  obtain ⟨magic, -, hcreate, hs, -⟩ := stateFromNodeCreate_accepted hnode
  rw [stateConvertChildren_visits] at hcreate
  obtain ⟨hdescribed, -, hfresh⟩ := convertVisits_described hcreate (by simp)
  have hsnode : s.node = node := by rw [hs]
  have hperm := convertVisits_names hcreate
  rw [List.map_nil, List.nil_append] at hperm
  obtain ⟨phandle, children, htotal, hunflatten, hexported⟩ :=
    dtbPack_reread (by rw [hlater.node, hsnode]; exact hnames) hgrow hpack
  rw [hlater.node, hsnode] at hexported
  have hstart : Reloading (stateReloadVar s.vars s'.vars) [] s.vars s.vars :=
    List.forall₂_same.2 fun sv _ => ⟨rfl, fun hmem => absurd hmem List.not_mem_nil, fun _ => rfl⟩
  obtain ⟨vars', done, hwalk, hdone, -, hreload⟩ := hstart.visits hnodup hfresh hlater.vars hdescribed hexported
    (hperm.nodup_iff.1 hnodup) fun _ _ hmem => by cases hmem
  have hlt := be32At_lt htotal
  have hmod : ((blob.length : Int) % 2 ^ 64).toNat = blob.length := by omega
  refine ⟨some (.node .empty phandle [u32Property "magic" s'.magic] children), blob.length,
    vars'.map StateVariable.freeDefault, ?_, ?_, fun name => ?_⟩
  · simp only [dtbVerify, htotal, hunflatten, hmod, Option.bind_eq_bind, Option.bind_some]
    rw [if_neg (lt_irrefl _)]
    rfl
  · simp only [dtbUnpack, dtbUnpackWith, stateFromNode, ofPropertyReadU32_magic, hlater.magic, Option.bind_eq_bind, Option.bind_some]
    rw [if_neg (by simp), stateConvertChildren_visits]
    simp only [DeviceNode.children, hwalk, Option.bind_some]
    rfl
  · have hreport := hreload.reports (fun sv hsv => hdone _ (hperm.mem_iff.1 (List.mem_map_of_mem hsv)))
      name fun hnone => by rw [stateReloadVar, hnone]
    rw [← hreport]
    refine sameReports_of ?_ name
    exact List.forall₂_map_left_iff.2 (List.forall₂_same.2 fun sv _ => ⟨rfl, sv.data.freeDefault_get⟩)

theorem dtbReloads_iff {junk : DeviceNode → Junk} {root root' : DtbFormat} {node : DeviceNode} {s s' : StateData}
    {blob : Bytes} (hnode : stateFromNodeCreate node = some (s, 0)) (hnodup : (s.vars.map (·.name)).Nodup)
    (hnames : ∀ v ∈ visitsBelow .empty node.children, CopiedName v.2.name) (hlater : s.Later s')
    (hgrow : ∀ new, stateToNode s' = some (.ok new) → NeverGrows (junk new) new)
    (hpack : dtbPack junk root s' = some (root', .ok blob)) :
    DtbReloads s blob s'.vars ↔ StringsCurrent s.vars s'.vars := by
  rw [← stringsCurrent_iff hlater.vars]
  obtain ⟨kept, len, vars', hverify, hunpack, hreports⟩ := dtb_reload hnode hnodup hnames hlater hgrow hpack
  constructor
  · intro h name
    obtain ⟨_, _, _, _, hverify', hunpack', hsame⟩ := h
    rw [hverify] at hverify'
    cases hverify'
    rw [hunpack] at hunpack'
    cases hunpack'
    rw [← hreports name]
    exact hsame name
  · intro h
    exact ⟨kept, len, none, vars', hverify, hunpack, fun name => (hreports name).trans (h name)⟩

/-- The variables that a description sets up have no copies yet. -/
theorem stateFromNodeCreate_fresh {node : DeviceNode} {s : StateData} (h : stateFromNodeCreate node = some (s, 0)) :
    ∀ sv ∈ s.vars, sv.data.Fresh := by
  obtain ⟨magic, -, hcreate, -⟩ := stateFromNodeCreate_accepted h
  rw [stateConvertChildren_visits] at hcreate
  exact (convertVisits_described hcreate (by simp)).2.2

/-! ## Room -/

/-- The new tree leaves 1024 bytes of both buffers. -/
def DtbHasRoom (s : StateData) : Prop :=
  ∃ new, stateToNode s = some (.ok new) ∧ 40 + 16 * 16 + (nodeBytes new 0).length + 1024 ≤ fdtBufsize ∧
    (nodeStrings new).length + 1024 ≤ fdtBufsize

instance (s : StateData) : Decidable (DtbHasRoom s) :=
  match h : stateToNode s with
  | none => isFalse fun ⟨_, htree, _⟩ => by simp [h] at htree
  | some (.error _) => isFalse fun ⟨_, htree, _⟩ => by simp [h] at htree
  | some (.ok new) =>
    decidable_of_iff (40 + 16 * 16 + (nodeBytes new 0).length + 1024 ≤ fdtBufsize ∧
      (nodeStrings new).length + 1024 ≤ fdtBufsize) (by simp [DtbHasRoom, h])

/-- A state whose tree leaves room is packed, and no buffer grows. -/
theorem DtbHasRoom.packs {s : StateData} (h : DtbHasRoom s)
    (hnames : ∀ v ∈ visitsBelow .empty s.node.children, RoomyName v.2.name) (junk : DeviceNode → Junk)
    (root : DtbFormat) :
    (∀ new, stateToNode s = some (.ok new) → NeverGrows (junk new) new) ∧
      ∃ root' blob, dtbPack junk root s = some (root', .ok blob) := by
  obtain ⟨new, htree, hdt, hstr⟩ := h
  have hroomy : new.All RoomyNames := stateToNode_names (Nat.zero_le _) hnames htree
  have hnever : NeverGrows (junk new) new := neverGrows_of_room _ hroomy hdt hstr
  constructor
  · intro new' htree'
    rw [htree] at htree'
    cases htree'
    exact hnever
  · obtain ⟨fdt, f, hflat, hblob, -⟩ := flatten_denotes (hroomy.imp fun _ => RoomyNames.copied) (.inl hroomy) hnever
    refine ⟨some new, fdt.take f.totalsize, ?_⟩
    simp only [dtbPack, htree, hflat, hblob.totalsize, Option.bind_eq_bind, Option.bind_some]
    rfl

/-! ## The round trip -/

/-- **When the dtb format brings the values back**: a state that calls have
changed and that is packed is unpacked into a new state of its description,
with the same values, if and only if every string reads as its copy, or as the
description has it. -/
theorem dtb_round_trip_iff {B : Type} (d : Backend B) (junk : DeviceNode → Junk) {node : DeviceNode} {s : StateData}
    (hnode : stateFromNodeCreate node = some (s, 0)) (hnodup : (s.vars.map (·.name)).Nodup)
    (hnames : ∀ v ∈ visitsBelow .empty node.children, CopiedName v.2.name) (env : Env) (root : DtbFormat)
    (readonly : Bool) (bs : List B) {calls : List StateCall} {x : Env × State DtbFormat B}
    (hrun : (stateSystem (dtbFormat junk) d (env, stateNew root readonly s bs)).Run calls x)
    (hgrow : ∀ new, stateToNode x.2.data = some (.ok new) → NeverGrows (junk new) new) {root' : DtbFormat}
    {blob : Bytes} (hpack : dtbPack junk x.2.format x.2.data = some (root', .ok blob)) :
    DtbReloads s blob x.2.data.vars ↔ StringsCurrent s.vars x.2.data.vars :=
  dtbReloads_iff hnode hnodup hnames (later_run (stateFromNodeCreate_fresh hnode) hrun) hgrow hpack

/-- The description of a state with a string of eight bytes. -/
def oneStringNode : DeviceNode := stateNode [variableNode "s@0" "string" 0 8 []]

theorem oneStringNode_names : ∀ v ∈ visitsBelow .empty oneStringNode.children, RoomyName v.2.name := by decide +kernel

/-- The string as it is described. -/
def newString : StateVariable := ⟨cstr "s", 0, .string (.zeroed 8 (by decide))⟩

/-- The string that holds `abc`. -/
def abcString (copy : Option CString) : StateVariable :=
  ⟨cstr "s", 0, .string ⟨(cstr "abc").1 ++ List.replicate 5 0, copy, .null, by decide⟩⟩

/-- One call on a new state of that description, which then can be packed. -/
theorem oneString_call (call : StateCall) (bs : List Bucket) (copy : Option CString)
    (h : (acceptedState oneStringNode).map (fun s =>
      let x := call.exec (dtbFormat fun _ _ _ => 0) bucketBackend .ok (stateNew none false s bs)
      (s.vars, x.2.data.vars, decide (DtbHasRoom x.2.data))) = some ([newString], [abcString copy], true)) :
    ∃ s x root' blob, stateFromNodeCreate oneStringNode = some (s, 0) ∧ s.vars = [newString] ∧
      (stateSystem (dtbFormat fun _ _ _ => 0) bucketBackend (.ok, stateNew none false s bs)).Run [call] x ∧
      x.2.data.vars = [abcString copy] ∧
      (∀ new, stateToNode x.2.data = some (.ok new) → NeverGrows (fun _ _ => 0) new) ∧
      dtbPack (fun _ _ _ => 0) x.2.format x.2.data = some (root', .ok blob) := by
  obtain ⟨s, hs, h⟩ := Option.map_eq_some_iff.1 h
  simp only [Prod.mk.injEq] at h
  obtain ⟨hvars, hafter, hroom⟩ := h
  have hnode := acceptedState_eq hs
  have hrun : (stateSystem (dtbFormat fun _ _ _ => 0) bucketBackend (.ok, stateNew none false s bs)).Run [call]
      (call.exec (dtbFormat fun _ _ _ => 0) bucketBackend .ok (stateNew none false s bs)) :=
    stateSystem_step (.init rfl) rfl call
  obtain ⟨x, hx⟩ : ∃ x, x = call.exec (dtbFormat fun _ _ _ => 0) bucketBackend .ok (stateNew none false s bs) :=
    ⟨_, rfl⟩
  simp only [← hx] at hafter hroom hrun
  have hlater := later_run (stateFromNodeCreate_fresh hnode) hrun
  have hsnode : s.node = oneStringNode := by
    obtain ⟨magic, -, -, hs', -⟩ := stateFromNodeCreate_accepted hnode
    rw [hs']
  obtain ⟨hgrow, root', blob, hpack⟩ := DtbHasRoom.packs (of_decide_eq_true hroom)
    (by rw [hlater.node, show (stateNew none false s bs : State DtbFormat Bucket).data.node = s.node from rfl, hsnode]
        exact oneStringNode_names) (fun _ _ _ => 0) x.2.format
  exact ⟨s, x, root', blob, hnode, hvars, hrun, hafter, hgrow, hpack⟩

theorem stringsCurrent_single {copy : Option CString} : StringsCurrent [newString] [abcString copy] ↔
    copy = some (cstr "abc") := by
  have hread : CString.of ((cstr "abc").1 ++ List.replicate 5 0) = cstr "abc" := by decide +kernel
  constructor
  · intro h
    have hs := h (cstr "s") newString (abcString copy) _ _ (by decide) (by simp [stateFindVar, abcString]) rfl rfl
    rw [hread] at hs
    cases copy with
    | none => exact absurd hs (by decide)
    | some v => exact congrArg some hs.symm
  · rintro rfl name a c s₀ s ha hc hs₀ hs
    obtain rfl : a = newString := List.mem_singleton.1 (List.mem_of_find?_eq_some ha)
    obtain rfl : c = abcString _ := List.mem_singleton.1 (List.mem_of_find?_eq_some hc)
    cases hs₀
    cases hs
    exact hread

/-- A string that was set. -/
theorem dtb_round_trip_set : ∃ s x blob, stateFromNodeCreate oneStringNode = some (s, 0) ∧
    (stateSystem (dtbFormat fun _ _ _ => 0) bucketBackend (.ok, stateNew none false s [])).Run
      [.set (cstr "s") (cstr "abc")] x ∧ DtbReloads s blob x.2.data.vars := by
  obtain ⟨s, x, root', blob, hnode, hvars, hrun, hafter, hgrow, hpack⟩ :=
    oneString_call (.set (cstr "s") (cstr "abc")) [] (some (cstr "abc")) (by decide +kernel)
  refine ⟨s, x, blob, hnode, hrun, ?_⟩
  refine (dtb_round_trip_iff bucketBackend (fun _ _ _ => 0) hnode (by rw [hvars]; decide)
    (fun v hv => (oneStringNode_names v hv).copied) .ok none false [] hrun hgrow hpack).2 ?_
  rw [hvars, hafter, stringsCurrent_single]

/-- A tree with the magic 1 and the string `s`, as `abc`. -/
def stringBlob : Bytes :=
  smallBlob [1, 0, 3, 4, 0, 1, 1, 0x73000000, 3, 7, 6, 0x73747269, 0x6e670000, 3, 4, 11, 0x61626300, 2, 2, 9]
    (["magic", "type", "value"].flatMap fun name => (cstr name).1 ++ [0])

/-- A file with this tree. -/
def stringFile : BucketDirect := ⟨256, false, false, false, directRecord stringBlob, treeStride_lt⟩

/-- A string that was loaded has no copy to pack. -/
theorem dtb_string_lost : ∃ s x root' blob, stateFromNodeCreate oneStringNode = some (s, 0) ∧
    (s.vars.map (·.name)).Nodup ∧
    (stateSystem (dtbFormat fun _ _ _ => 0) bucketBackend (.ok, stateNew none false s [.direct stringFile])).Run
      [.load] x ∧
    (∀ new, stateToNode x.2.data = some (.ok new) → NeverGrows (fun _ _ => 0) new) ∧
    dtbPack (fun _ _ _ => 0) x.2.format x.2.data = some (root', .ok blob) ∧ ¬ DtbReloads s blob x.2.data.vars := by
  obtain ⟨s, x, root', blob, hnode, hvars, hrun, hafter, hgrow, hpack⟩ :=
    oneString_call .load [.direct stringFile] none (by decide +kernel)
  have hnodup : (s.vars.map (·.name)).Nodup := by
    rw [hvars]
    decide
  refine ⟨s, x, root', blob, hnode, hnodup, hrun, hgrow, hpack, ?_⟩
  rw [dtbReloads_iff hnode hnodup (fun v hv => (oneStringNode_names v hv).copied)
    (later_run (stateFromNodeCreate_fresh hnode) hrun) hgrow hpack, hvars, hafter, stringsCurrent_single]
  simp

end DtUtils
