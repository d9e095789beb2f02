/-
What a state is that is created from the description which `state_to_node`
wrote of another one for a fixup, between any two calls.

It has the same variables, each at its default (`fixup_recreates`), and the
description can be written as long as no default was imported from a tree that
is gone (`fixup_iff`), which the raw format never does (`raw_fixup`).
-/
import DtUtils.Fixup

namespace DtUtils
open Lib

/-! ## What a description sets up -/

theorem ofPropertyStrings_ne_nil {np : DeviceNode} {propname : CString} {ss : List CString}
    (h : ofPropertyStrings np propname = some (.ok ss)) : ss ≠ [] := by
  rintro rfl
  unfold ofPropertyStrings at h
  split at h
  · cases h
  next p hp =>
  split at h
  · next hzero =>
    simp only [Option.map_eq_map, Option.map_eq_some_iff, Except.ok.injEq, exists_eq_right] at h
    rw [splitStrings_eq_some h] at hzero
    cases hzero
  · cases h

theorem VariableType.import_named {vtype : VariableType} {node : DeviceNode} {data₀ data : VarData} {ret : Int}
    (hcreate : vtype.create node = some (.ok data₀)) (himport : vtype.import node data₀ = some (data, ret)) :
    data.Named := by
  rintro v dflt names rfl
  cases VariableType.import_sameKind himport with
  | enum32 =>
    obtain rfl : VariableType.enum32 = vtype := (VariableType.create_fits hcreate).2
    simp only [VariableType.create] at hcreate
    split at hcreate
    · cases hcreate
    · cases hcreate
    · next names₀ hnames =>
      cases hcreate
      exact ofPropertyStrings_ne_nil hnames

theorem named_preserves : Preserves true (fun _ => True) fun vars => ∀ sv ∈ vars, sv.data.Named := by
  intro name node vars vars' ret _ hs h
  rcases stateConvertVariable_create h with ⟨rfl, -⟩ | ⟨-, vtype, -, -, h⟩
  · exact hs
  · rcases stateCreateVariable_cases h with ⟨rfl, -⟩ | ⟨data₀, start, -, data, hcreate, -, -, himport, rfl⟩
    · exact hs
    · intro sv hsv
      rcases List.mem_cons.1 ((stateAddVar_perm vars _).mem_iff.1 hsv) with rfl | hsv
      · exact VariableType.import_named hcreate himport
      · exact hs sv hsv

/-! ## The description that is written, read again -/

/-- The variable of that name, at its default. -/
def redone (now : List StateVariable) (sv : StateVariable) : StateVariable :=
  ((stateFindVar now sv.name).map StateVariable.reset).getD sv

theorem stateAddVar_map {f : StateVariable → StateVariable} {vars : List StateVariable} {var : StateVariable}
    (hvar : (f var).start = var.start) (hvars : ∀ sv ∈ vars, (f sv).start = sv.start) :
    stateAddVar (vars.map f) (f var) = (stateAddVar vars var).map f := by
  simp only [stateAddVar, listAddSort]
  induction vars with
  | nil => rfl
  | cons sv vars ih =>
    rw [List.forall_mem_cons] at hvars
    have hsame : stateVarCompare (f sv) (f var) = stateVarCompare sv var := by
      rw [stateVarCompare, stateVarCompare, hvar, hvars.1]
    rw [List.map_cons, List.orderedInsert_cons, List.orderedInsert_cons, hsame, ih hvars.2]
    split <;> rfl

section
variable {vars₀ now vars vars' : List StateVariable}

theorem VarsLater.find (hlater : VarsLater vars₀ now) (hnodup : (vars₀.map (·.name)).Nodup) {sv : StateVariable}
    (hsv : sv ∈ vars₀) :
    ∃ c ∈ now, stateFindVar now sv.name = some c ∧ c.name = sv.name ∧ c.start = sv.start ∧ sv.data.Later c.data := by
  have hfound := stateFindVar_of_mem hnodup hsv
  obtain ⟨a, c, ha, hc, hac⟩ :=
    (stateFindVar_forall₂ (fun _ _ hac => hac.1) hlater sv.name).resolve_left (by simp [hfound])
  obtain rfl : sv = a := Option.some.inj (hfound.symm.trans ha)
  exact ⟨c, List.mem_of_find?_eq_some hc, hc, hac⟩

theorem redone_start (hlater : VarsLater vars₀ now) (hnodup : (vars₀.map (·.name)).Nodup) {sv : StateVariable}
    (hsv : sv ∈ vars₀) : (redone now sv).start = sv.start := by
  obtain ⟨c, -, hfind, -, hstart, -⟩ := hlater.find hnodup hsv
  rw [redone, hfind]
  exact hstart

theorem FixedUp.convert {v v' : CString × DeviceNode} (h : FixedUp now v v') (hlater : VarsLater vars₀ now)
    (hnodup : (vars₀.map (·.name)).Nodup) (hfresh : ∀ sv ∈ vars₀, sv.data.Fresh) (hnamed : ∀ sv ∈ vars₀, sv.data.Named)
    (hsub : ∀ sv ∈ vars', sv ∈ vars₀) (hcreate : stateConvertVariable true v.1 v.2 vars = some (vars', 0)) :
    stateConvertVariable true v'.1 v'.2 (vars.map (redone now)) = some (vars'.map (redone now), 0) := by
  obtain ⟨name, node⟩ := v
  rcases stateConvertVariable_create hcreate with ⟨rfl, herror⟩ | ⟨typeName, vtype, htype, hfind, hcreated⟩
  · obtain ⟨e, he⟩ := herror rfl
    have hparent : ¬ node.children.isEmpty := by
      simp only [stateConvertVariable, he] at hcreate
      split at hcreate
      · next hparent => exact hparent.1
      · obtain ⟨-, h0⟩ := Prod.mk.inj (Option.some.inj hcreate)
        exact absurd h0 (ofPropertyReadString_error he)
    have hnone : ofPropertyReadString v'.2 (cstr "type") = .error (-EINVAL) := by
      refine ofPropertyReadString_none ?_
      rw [ofFindProperty, h.untyped e he]
      rfl
    simp only [stateConvertVariable, hnone]
    rw [if_pos ⟨by rw [h.children]; exact hparent, trivial⟩]
  · rcases stateCreateVariable_cases hcreated with ⟨-, hne⟩ | ⟨data₀, start, size, data, hmade, -, -, himport, rfl⟩
    · exact absurd rfl hne
    have hmem : ∀ sv, sv ∈ stateAddVar vars ⟨name, start, data⟩ ↔ sv = ⟨name, start, data⟩ ∨ sv ∈ vars := fun sv =>
      (stateAddVar_perm vars _).mem_iff.trans List.mem_cons
    have hnew := hsub _ ((hmem _).2 (.inl rfl))
    obtain ⟨c, -, hc, hcname, hcstart, hcdata⟩ := hlater.find hnodup hnew
    obtain ⟨vtype', properties, hfind', hfix, hnode⟩ := h.typed typeName htype c hc
    obtain rfl : vtype = vtype' := Option.some.inj (hfind.symm.trans hfind')
    obtain rfl : vtype = c.data.type := (VariableType.create_fits hmade).2.symm.trans
      ((VariableType.import_sameKind himport).type.trans hcdata.sameKind.type)
    obtain ⟨new, hnewdata, hsize, hreset⟩ :=
      VariableType.create_fixup (hfresh _ hnew) (hnamed _ hnew) hcdata hfix rfl hnode
    have htype' : ofPropertyReadString v'.2 (cstr "type") = .ok c.data.type.typeName := by
      rw [hnode]
      exact exportedNode_type
    have hreg : ofPropertyReadU32Pair v'.2 (cstr "reg") = .ok (c.start, .ofNat c.size) := by
      rw [hnode]
      exact exportedNode_reg
    have hlen : (UInt32.ofNat c.size).toNat = new.size := by
      rw [UInt32.toNat_ofNat', Nat.mod_eq_of_lt c.size_lt, hsize, StateVariable.size]
    have hredone : redone now ⟨name, start, data⟩ = ⟨v'.1, c.start, c.data.reset⟩ := by
      rw [redone, hc, h.path]
      exact congrArg (fun n => (⟨n, c.start, c.data.reset⟩ : StateVariable)) hcname
    rw [stateFindTypeByName_eq hfind] at hfind
    rw [← stateAddVar_map (redone_start hlater hnodup hnew)
      fun sv hsv => redone_start hlater hnodup (hsub sv ((hmem sv).2 (.inr hsv))), hredone]
    simp only [stateConvertVariable, htype', hfind, if_true, stateCreateVariable, hnewdata, hreg, hlen, hreset,
      Option.bind_eq_bind, Option.bind_some]
    rw [if_neg (by simp)]
    rfl

theorem FixedUp.convertVisits {vs vs' : List (CString × DeviceNode)} (h : List.Forall₂ (FixedUp now) vs vs')
    (hlater : VarsLater vars₀ now) (hnodup : (vars₀.map (·.name)).Nodup) (hfresh : ∀ sv ∈ vars₀, sv.data.Fresh)
    (hnamed : ∀ sv ∈ vars₀, sv.data.Named) (hsub : ∀ sv ∈ vars', sv ∈ vars₀)
    (hcreate : convertVisits true vars vs = some (vars', 0)) (hvars : ∀ sv ∈ vars, sv.data.Fresh) :
    DtUtils.convertVisits true (vars.map (redone now)) vs' = some (vars'.map (redone now), 0) := by
  induction h generalizing vars with
  | nil =>
    cases hcreate
    rfl
  | @cons v v' vs vs' hv _ ih =>
    obtain ⟨name, node⟩ := v
    simp only [DtUtils.convertVisits, Option.bind_eq_bind, Option.bind_eq_some_iff] at hcreate
    obtain ⟨⟨vars₁, r⟩, hfirst, hrest⟩ := hcreate
    simp only at hrest
    split at hrest
    · next hne =>
      cases hrest
      exact absurd rfl hne
    next h0 =>
    obtain rfl : r = 0 := by simpa using h0
    obtain ⟨-, -, hfresh₁⟩ := stateConvertVariable_described hfirst hvars
    obtain ⟨-, hsub₁, -⟩ := convertVisits_described hrest hfresh₁
    have hstep := hv.convert hlater hnodup hfresh hnamed (fun sv hsv => hsub sv (hsub₁ sv hsv)) hfirst
    simp only [DtUtils.convertVisits, hstep, Option.bind_eq_bind, Option.bind_some]
    rw [if_neg (by simp)]
    exact ih hrest hfresh₁

end

section
variable {node new : DeviceNode} {s₀ s : StateData}

theorem VarsLater.names {vars₀ now : List StateVariable} (h : VarsLater vars₀ now) :
    now.map (·.name) = vars₀.map (·.name) := by
  induction h with
  | nil => rfl
  | cons hsv _ ih => rw [List.map_cons, List.map_cons, hsv.1, ih]

theorem VarsLater.redone {vars₀ now : List StateVariable} (h : VarsLater vars₀ now) (hnodup : (vars₀.map (·.name)).Nodup) :
    vars₀.map (redone now) = now.map StateVariable.reset := by
  have hnodup' : (now.map (·.name)).Nodup := by rwa [h.names]
  have hpart : ∀ {l m : List StateVariable}, VarsLater l m → (∀ c ∈ m, c ∈ now) →
      l.map (DtUtils.redone now) = m.map StateVariable.reset := by
    intro l m hlm
    induction hlm with
    | nil => exact fun _ => rfl
    | @cons a c l m hac _ ih =>
      intro hsub
      rw [List.forall_mem_cons] at hsub
      rw [List.map_cons, List.map_cons, ih hsub.2, DtUtils.redone, ← hac.1, stateFindVar_of_mem hnodup' hsub.1]
      rfl
  exact hpart h fun _ hc => hc

theorem VarsLater.places {vars₀ now : List StateVariable} (h : VarsLater vars₀ now) : SamePlaces vars₀ now :=
  List.Forall₂.imp (fun _ _ hac => ⟨hac.2.1.symm, hac.2.2.sameKind.size⟩) h

theorem samePlaces_reset (vars : List StateVariable) : SamePlaces vars (vars.map StateVariable.reset) :=
  List.forall₂_map_right_iff.2 (List.forall₂_same.2 fun sv _ => ⟨rfl, sv.data.reset_size.symm⟩)

theorem stateToNodeFixup_eq (h : stateToNodeFixup s = some (.ok new)) :
    ∃ news, stateFixupChildren s.vars .empty s.node.children = some (.ok news) ∧
      new = .node s.node.name 0 [u32Property "magic" s.magic] news := by
  simp only [stateToNodeFixup, Option.bind_eq_bind, Option.bind_eq_some_iff] at h
  obtain ⟨converted, hconvert, h⟩ := h
  cases converted with
  | error e => cases h
  | ok news =>
    cases h
    exact ⟨news, hconvert, rfl⟩

/-- **The description that is written makes the state again**, with every
variable at its default. -/
theorem fixup_recreates (hnode : stateFromNodeCreate node = some (s₀, 0)) (hnodup : (s₀.vars.map (·.name)).Nodup)
    (hlater : s₀.Later s) (h : stateToNodeFixup s = some (.ok new)) :
    stateFromNodeCreate new = some (⟨s.magic, new, s.vars.map StateVariable.reset⟩, 0) := by
  obtain ⟨magic, -, hcreate, hs₀, hconf⟩ := stateFromNodeCreate_accepted hnode
  have hnamed := named_preserves.children (allNodes_true _) (by simp) hcreate
  rw [stateConvertChildren_visits] at hcreate
  obtain ⟨news, hnews, hnew⟩ := stateToNodeFixup_eq h
  rw [hlater.node, hs₀] at hnews
  have hwalk := FixedUp.convertVisits (stateFixupChildren_fixedUp hnews).1 hlater.vars hnodup
    (stateFromNodeCreate_fresh hnode) hnamed (fun _ hsv => hsv) hcreate (by simp)
  rw [List.map_nil, hlater.vars.redone hnodup] at hwalk
  have hmagic : ofPropertyReadU32 new (cstr "magic") = .ok s.magic := by
    rw [hnew]
    exact ofPropertyReadU32_eq (p := u32Property "magic" s.magic) rfl rfl
  have hconf' : variablesConflict (s.vars.map StateVariable.reset) = false := by
    rw [← (samePlaces_reset s.vars).conflict, ← hlater.vars.places.conflict]
    exact hconf
  have hchildren : new.children = news := by rw [hnew]; rfl
  simp only [stateFromNodeCreate, hmagic, hchildren, stateConvertChildren_visits, hwalk, Option.bind_eq_bind,
    Option.bind_some, hconf']
  rfl

theorem VariableType.fixup_isSome {data : VarData} : (∃ properties, data.type.fixup data = some properties) ↔
    ¬ data.Freed := by
  cases data with
  | string string =>
    cases hdefault : string.valueDefault <;>
      simp [VarData.type, VariableType.fixup, stateStringFixup, VarData.Freed, hdefault]
  | _ => simp [VarData.type, VariableType.fixup, VarData.Freed]

theorem VariableType.fixup_kept {vtype : VariableType} {data : VarData} {properties : List Property}
    (h : vtype.fixup data = some properties) : ¬ data.Freed := by
  rintro ⟨string, rfl, hfreed⟩
  cases vtype <;> simp [VariableType.fixup, stateStringFixup, hfreed] at h

/-- **When a description can be written**: exactly if no default is gone. -/
theorem fixup_iff (hnode : stateFromNodeCreate node = some (s₀, 0)) (hnodup : (s₀.vars.map (·.name)).Nodup)
    (hlater : s₀.Later s) :
    (∃ new, stateToNodeFixup s = some (.ok new)) ↔ ∀ sv ∈ s.vars, ¬ sv.data.Freed := by
  obtain ⟨magic, -, hcreate, hs₀, -⟩ := stateFromNodeCreate_accepted hnode
  rw [stateConvertChildren_visits] at hcreate
  obtain ⟨hdescribed, -, -⟩ := convertVisits_described hcreate (by simp)
  have hperm := convertVisits_names hcreate
  rw [List.map_nil, List.nil_append] at hperm
  have hsnode : s.node = node := by rw [hlater.node, hs₀]
  constructor
  · rintro ⟨new, h⟩ c hc
    obtain ⟨news, hnews, -⟩ := stateToNodeFixup_eq h
    rw [hsnode] at hnews
    have hname : c.name ∈ variableNames (visitsBelow .empty node.children) := by
      refine hperm.mem_iff.1 ?_
      rw [← hlater.vars.names]
      exact List.mem_map_of_mem hc
    obtain ⟨v, hv, hpath⟩ := List.mem_map.1 hname
    obtain ⟨hv, htyped⟩ := List.mem_filter.1 hv
    obtain ⟨v', -, hvv'⟩ := forall₂_mem_left (stateFixupChildren_fixedUp hnews).1 hv
    cases htype : ofPropertyReadString v.2 (cstr "type") with
    | error e =>
      rw [htype] at htyped
      cases htyped
    | ok typeName =>
      have hfind := stateFindVar_of_mem (by rwa [hlater.vars.names]) hc
      obtain ⟨vtype, properties, -, hfix, -⟩ := hvv'.typed typeName htype c (hpath ▸ hfind)
      exact VariableType.fixup_kept hfix
  · intro hkept
    have hwritable : ∀ v ∈ visitsBelow .empty node.children, Writable s.vars v := by
      intro v hv children
      cases htype : ofPropertyReadString v.2 (cstr "type") with
      | error e =>
        obtain ⟨he, hchildren⟩ := (hdescribed v hv).untyped e htype
        refine ⟨.node v.2.name 0 cellProperties children, ?_⟩
        simp only [stateFixupVariable, htype]
        rw [if_pos ⟨by simp [hchildren], he⟩]
      | ok typeName =>
        obtain ⟨vtype, hfind, sv, hsv, hname, hkind⟩ := (hdescribed v hv).typed typeName htype
        obtain ⟨c, hc, hfound, -, -, hdata⟩ := hlater.vars.find hnodup hsv
        obtain ⟨properties, hfix⟩ := VariableType.fixup_isSome.2 (hkept c hc)
        rw [← hdata.sameKind.type, hkind] at hfix
        refine ⟨exportedNode v.2.name 0 vtype c properties children, ?_⟩
        simp only [stateFixupVariable, htype, hfind, ← hname, hfound, hfix, Option.map_some]
        rfl
    obtain ⟨news, hnews⟩ := stateFixupChildren_ok hwritable
    refine ⟨.node s.node.name 0 [u32Property "magic" s.magic] news, ?_⟩
    simp only [stateToNodeFixup, hsnode, hnews, Option.bind_eq_bind, Option.bind_some]
    rfl

end

/-! ## Runs -/

section
variable {F B : Type} {fmt : Format F} {d : Backend B} {P : StateData → Prop}

/-- What setting and unpacking keep of a state, a process keeps. -/
theorem data_run {start x : Env × State F B} {calls : List StateCall}
    (hset : ∀ s name val vars set ret, P s → stateSetVar s.vars name val = some (vars, set, ret) →
      P { s with vars := vars })
    (hunpack : ∀ f s buf len f' vars ret, P s → fmt.unpack f s buf len = some (f', vars, ret) → P { s with vars := vars })
    (hstart : P start.2.data) (hrun : (stateSystem fmt d start).Run calls x) : P x.2.data := by
  have hload (noAuth : Bool) (env : Env) (st : State F B) (h : P st.data) :
      P (stateDoLoad fmt d noAuth env st).2.1.data := by
    simp only [stateDoLoad]
    split
    · exact h
    simp only [stateUnpack]
    split
    · exact h
    · next hun => exact hunpack _ _ _ _ _ _ _ h hun
  have hinv : (stateSystem fmt d start).Invariant fun _ x => P x.2.data := by
    refine ⟨fun hinit => ?_, fun {_ x call _} hx hstep => ?_⟩
    · rw [show _ = start from hinit]
      exact hstart
    · obtain ⟨-, rfl⟩ := hstep
      cases call with
      | load | loadNoAuth => exact hload _ _ _ hx
      | get name =>
        simp only [StateCall.exec]
        split <;> exact hx
      | set name val =>
        simp only [StateCall.exec, stateSetCall]
        split
        · exact hx
        · next hsetvar => exact hset _ _ _ _ _ _ hx hsetvar
      | save =>
        simp only [StateCall.exec, stateSave_data]
        exact hx
  exact hinv.run hrun

end

theorem VarData.Later.setRaw {a c : VarData} (h : a.Later c) (bs : Bytes) : a.Later (c.setRaw bs) := by
  cases h with
  | uint8 => exact .uint8
  | uint32 => exact .uint32
  | enum32 => exact .enum32
  | mac => exact .mac
  | @string s₀ s hlen hdefault hvalue =>
    simp only [VarData.setRaw]
    split
    · next hbs => exact .string (hbs.trans hlen) hdefault (hbs ▸ hvalue)
    · exact .string hlen hdefault hvalue

theorem VarData.setRaw_freed {data : VarData} {bs : Bytes} (h : (data.setRaw bs).Freed) : data.Freed := by
  obtain ⟨s', hs', hfreed⟩ := h
  have hkind := data.setRaw_sameKind bs
  cases data with
  | string s =>
    refine ⟨s, rfl, ?_⟩
    simp only [setRaw] at hs'
    split at hs' <;>
    · cases hs'
      exact hfreed
  | _ =>
    rw [hs'] at hkind
    cases hkind

theorem VarData.set_freed {data : VarData} {val : CString} (h : (data.set val).1.Freed) : data.Freed := by
  obtain ⟨s', hs', hfreed⟩ := h
  have hkind := data.set_sameKind val
  cases data with
  | string s =>
    refine ⟨s, rfl, ?_⟩
    simp only [set] at hs'
    split at hs' <;> cases hs'
    · exact hfreed
    · rw [← (stateStringCopyToRaw_kept s val).2]
      exact hfreed
  | _ =>
    rw [hs'] at hkind
    cases hkind

theorem stateSetVar_freed {name val : CString} : ∀ {vars vars' : List StateVariable} {set : Bool} {ret : Int},
    stateSetVar vars name val = some (vars', set, ret) → (∀ sv ∈ vars, ¬ sv.data.Freed) →
      ∀ sv ∈ vars', ¬ sv.data.Freed
  | [], _, _, _, h, _ => by
    cases h
    simp
  | sv :: vars, vars', set, ret, h, hkept => by
    rw [List.forall_mem_cons] at hkept
    rw [stateSetVar] at h
    split at h
    · split at h
      · cases h
      · split at h
        · cases h
          exact List.forall_mem_cons.2 hkept
        · cases h
          exact List.forall_mem_cons.2 ⟨fun hfreed => hkept.1 (VarData.set_freed hfreed), hkept.2⟩
    · obtain ⟨⟨vs, s, r⟩, hrest, heq⟩ := Option.map_eq_some_iff.1 h
      cases heq
      exact List.forall_mem_cons.2 ⟨hkept.1, stateSetVar_freed hrest hkept.2⟩

theorem VarData.Fresh.kept {data : VarData} (h : data.Fresh) : ¬ data.Freed := by
  rintro ⟨s, rfl, hfreed⟩
  rcases h.valueDefault with hnull | ⟨t, ht, -⟩
  · rw [hnull] at hfreed
    cases hfreed
  · rw [ht] at hfreed
    cases hfreed

theorem raw_run_later {B : Type} {d : Backend B} {start x : Env × State RawFormat B} {calls : List StateCall}
    (hfresh : ∀ sv ∈ start.2.data.vars, sv.data.Fresh) (hrun : (stateSystem rawFormat d start).Run calls x) :
    start.2.data.Later x.2.data ∧ ∀ sv ∈ x.2.data.vars, ¬ sv.data.Freed := by
  refine data_run (P := fun s => start.2.data.Later s ∧ ∀ sv ∈ s.vars, ¬ sv.data.Freed) ?_ ?_
    ⟨⟨rfl, rfl, .refl hfresh⟩, fun sv hsv => (hfresh sv hsv).kept⟩ hrun
  · intro s name val vars set ret hs hset
    exact ⟨⟨hs.1.magic, hs.1.node, hs.1.vars.set hset⟩, stateSetVar_freed hset hs.2⟩
  · intro f s buf len f' vars ret hs hunpack
    rw [rawFormat_unpack, Option.map_eq_some_iff] at hunpack
    obtain ⟨⟨vars', ret'⟩, hunpack, heq⟩ := hunpack
    cases heq
    obtain ⟨rfl, -⟩ := unpack_eq hunpack
    refine ⟨⟨hs.1.magic, hs.1.node, List.forall₂_map_right_iff.2 (hs.1.vars.imp fun a c hac => ?_)⟩, ?_⟩
    · rw [unpackVariable]
      split
      · exact hac
      · exact ⟨hac.1, hac.2.1, hac.2.2.setRaw _⟩
    · rintro sv hsv
      obtain ⟨c, hc, rfl⟩ := List.mem_map.1 hsv
      rw [unpackVariable]
      split
      · exact hs.2 c hc
      · exact fun hfreed => hs.2 c hc (VarData.setRaw_freed hfreed)

section
variable {B : Type} (d : Backend B) {node : DeviceNode} {s : StateData} (env : Env) (readonly : Bool) (bs : List B)

/-- **A state in the raw format is made again by what it writes for a fixup**: from
any state that a process brings it to, the description is written, and the state
made of it takes the values from what is saved. -/
theorem raw_fixup (hnode : stateFromNodeCreate node = some (s, 0)) (hnodup : (s.vars.map (·.name)).Nodup)
    (f : RawFormat) {calls : List StateCall} {x : Env × State RawFormat B}
    (hrun : (stateSystem rawFormat d (env, stateNew f readonly s bs)).Run calls x) :
    ∃ new s', stateToNodeFixup x.2.data = some (.ok new) ∧ stateFromNodeCreate new = some (s', 0) ∧
      s'.magic = s.magic ∧ s'.vars = x.2.data.vars.map StateVariable.reset ∧
      ∀ (raw raw' : RawFormat) (buf : Bytes), backendFormatRawPack s.magic raw x.2.data.vars = some (raw', .ok buf) →
        (∀ sv ∈ s.vars, sv.stop ≤ 65535) → ∀ noAuth, ∃ raw'' len,
          backendFormatRawVerify s'.magic noAuth raw buf buf.length = some (raw'', 0, len) ∧
          ∃ out, backendFormatRawUnpack buf s'.vars = some (out, 0) ∧
            out.map StateVariable.raw = x.2.data.vars.map StateVariable.raw := by
  have hfresh := stateFromNodeCreate_fresh hnode
  obtain ⟨hlater, hkept⟩ := @raw_run_later B d (env, stateNew f readonly s bs) x calls hfresh hrun
  obtain ⟨new, hnew⟩ := (fixup_iff hnode hnodup hlater).2 hkept
  have hcreated := fixup_recreates hnode hnodup hlater hnew
  have hmagic : x.2.data.magic = s.magic := hlater.magic
  have hplaces : SamePlaces s.vars x.2.data.vars := hlater.vars.places
  refine ⟨new, _, hnew, hcreated, hmagic, rfl, fun raw raw' buf hpack hstop noAuth => ?_⟩
  obtain ⟨-, -, -, -, hconf⟩ := stateFromNodeCreate_accepted hnode
  rw [hplaces.conflict] at hconf
  have hfits : ∀ sv ∈ x.2.data.vars, sv.stop < 2 ^ 16 := by
    refine (hplaces.stop_iff (· < 2 ^ 16)).1 fun sv hsv => ?_
    have := hstop sv hsv
    omega
  have hround := RawRoundTrips.of_fits hconf hpack hfits [] raw noAuth _ rfl (samePlaces_reset x.2.data.vars)
  rw [List.append_nil] at hround
  rw [← hmagic] at hround
  exact hround

end

/-- A string and a number with defaults. -/
def defaultsNode : DeviceNode := stateNode [variableNode "s@0" "string" 0 8 [stringProperty "default" (cstr "abc")],
  variableNode "n@8" "uint32" 8 4 [u32Property "default" 7]]

/-- The number was set, and is 7 again in the state that is found. -/
theorem raw_fixup_defaults : ∃ s x new s', stateFromNodeCreate defaultsNode = some (s, 0) ∧
    (stateSystem rawFormat bucketBackend (.ok, stateNew (backendFormatRawCreate none) false s [])).Run
      [.set (cstr "n") (cstr "5")] x ∧
    stateToNodeFixup x.2.data = some (.ok new) ∧ stateFromNodeCreate new = some (s', 0) ∧
    s'.vars.map StateVariable.raw = [(cstr "abc").1 ++ List.replicate 5 0, [7, 0, 0, 0]] := by
  obtain ⟨s, hs, h⟩ : ∃ s, acceptedState defaultsNode = some s ∧
      ((StateCall.set (cstr "n") (cstr "5")).exec rawFormat bucketBackend .ok
          (stateNew (backendFormatRawCreate none) false s [])).2.data.vars.map (·.reset.raw) =
        [(cstr "abc").1 ++ List.replicate 5 0, [7, 0, 0, 0]] ∧ (s.vars.map (·.name)).Nodup := by
    have h : (acceptedState defaultsNode).map (fun s =>
        (((StateCall.set (cstr "n") (cstr "5")).exec rawFormat bucketBackend .ok
          (stateNew (backendFormatRawCreate none) false s [])).2.data.vars.map (·.reset.raw),
          decide (s.vars.map (·.name)).Nodup)) =
        some ([(cstr "abc").1 ++ List.replicate 5 0, [7, 0, 0, 0]], true) := by decide +kernel
    obtain ⟨s, hs, h⟩ := Option.map_eq_some_iff.1 h
    obtain ⟨hraw, hnodup⟩ := Prod.mk.inj h
    exact ⟨s, hs, hraw, of_decide_eq_true hnodup⟩
  have hrun : (stateSystem rawFormat bucketBackend (.ok, stateNew (backendFormatRawCreate none) false s [])).Run
      [.set (cstr "n") (cstr "5")] ((StateCall.set (cstr "n") (cstr "5")).exec rawFormat bucketBackend .ok
        (stateNew (backendFormatRawCreate none) false s [])) := stateSystem_step (.init rfl) rfl _
  obtain ⟨new, s', hnew, hcreated, -, hvars, -⟩ :=
    raw_fixup bucketBackend .ok false [] (acceptedState_eq hs) h.2 (backendFormatRawCreate none) hrun
  refine ⟨s, _, new, s', acceptedState_eq hs, hrun, hnew, hcreated, ?_⟩
  rw [hvars, List.map_map]
  exact h.1

end DtUtils
