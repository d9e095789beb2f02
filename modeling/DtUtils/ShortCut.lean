/-
The short cut of `state_set_var`, which skips a value that the variable reads
as already: whether skipping can be told from setting it, by what is read or
by what a packed copy gives back.
-/
import DtUtils.RawRoundTrip
import DtUtils.TypedNodes

namespace DtUtils
open Lib

/-! ## What can be seen -/

/-- The variables of one description. -/
def SameVariables (vars vars' : List StateVariable) : Prop :=
  List.Forall₂ (fun a b => a.name = b.name ∧ a.start = b.start ∧ a.data.SameKind b.data) vars vars'

/-- Every variable reads the same. -/
def SameReports (vars vars' : List StateVariable) : Prop := ∀ name, stateGetVar vars name = stateGetVar vars' name

/-- Loading a raw buffer: `verify`, and `unpack` if it accepts. -/
def rawReload (magic : UInt32) (noAuth : Bool) (raw : RawFormat) (vars : List StateVariable) (b : Bytes) :
    Option (List StateVariable × Int) := do
  let (_, ret, _) ← backendFormatRawVerify magic noAuth raw b b.length
  if ret ≠ 0 then return (vars, ret) else backendFormatRawUnpack b vars

/-- Where the one list of variables can be packed, so can the other, and the
two packed copies load alike, whatever is behind them. -/
def SameCopies (vars vars' : List StateVariable) : Prop :=
  ∀ magic raw raw' b, backendFormatRawPack magic raw vars = some (raw', .ok b) →
    ∃ b', backendFormatRawPack magic raw vars' = some (raw', .ok b') ∧
      ∀ (loader : RawFormat) noAuth t into, loader.algo = raw.algo → SameVariables vars into →
        ∃ out out' ret, rawReload magic noAuth loader into (b ++ t) = some (out, ret) ∧
          rawReload magic noAuth loader into (b' ++ t) = some (out', ret) ∧ SameReports out out'

/-- `vtype->set` on the variable that `name` finds, without the short cut. -/
def stateSetAnyway (vars : List StateVariable) (name val : CString) : List StateVariable × Int :=
  match vars with
  | [] => ([], -ENOENT)
  | sv :: vars =>
    if sv.name = name then
      let (data, ret) := sv.data.set val
      ({ sv with data := data } :: vars, ret)
    else
      let (vars, ret) := stateSetAnyway vars name val
      (sv :: vars, ret)

/-- Setting any variable to what it reads as would succeed, and nobody could
tell. -/
def ShortCutHarmless (vars : List StateVariable) : Prop :=
  ∀ name val, stateGetVar vars name = some (some val) →
    ∃ vars', stateSetAnyway vars name val = (vars', 0) ∧ SameReports vars vars' ∧ SameCopies vars vars'

/-- The number of a uint8 is that of a byte. -/
def VarData.FitsByte : VarData → Prop
  | .uint8 v dflt => v.toNat ≤ 255 ∧ dflt.toNat ≤ 255
  | _ => True

/-! ## Kinds -/

theorem VarData.set_sameKind (d : VarData) (val : CString) : d.SameKind (d.set val).1 := by
  cases d with
  | uint8 v dflt =>
    simp only [set]
    split <;> exact .uint8
  | uint32 v dflt => exact .uint32
  | enum32 v dflt names =>
    simp only [set]
    split <;> exact .enum32
  | mac v dflt =>
    simp only [set]
    split <;> exact .mac
  | string s =>
    simp only [set]
    split
    · exact .string rfl
    · exact .string (stateStringCopyToRaw_length s val).symm

theorem VarData.setRaw_sameKind (d : VarData) (bs : Bytes) : d.SameKind (d.setRaw bs) := by
  cases d with
  | string s => exact .string (setRaw_size (.string s) bs).symm
  | _ => constructor

theorem SameVariables.refl (vars : List StateVariable) : SameVariables vars vars :=
  List.forall₂_same.2 fun sv _ => ⟨rfl, rfl, .refl sv.data⟩

theorem SameVariables.trans {a b c : List StateVariable} (h : SameVariables a b) (h' : SameVariables b c) :
    SameVariables a c :=
  forall₂_chain (fun _ _ _ hab hbc => ⟨hab.1.trans hbc.1, hab.2.1.trans hbc.2.1, hab.2.2.trans hbc.2.2⟩) h h'

theorem SameVariables.symm {a b : List StateVariable} (h : SameVariables a b) : SameVariables b a :=
  (List.Forall₂.imp (fun _ _ h => ⟨h.1.symm, h.2.1.symm, h.2.2.symm⟩) h).flip

theorem SameVariables.places {a b : List StateVariable} (h : SameVariables a b) : SamePlaces a b :=
  List.Forall₂.imp (fun _ _ h => ⟨h.2.1, h.2.2.size⟩) h

/-! ## One value -/

theorem VarData.string_setRaw_get {s : StateString} {bs : Bytes} (h : bs.length = s.raw.length) :
    ((VarData.string s).setRaw bs).get = some (CString.of bs) := by
  simp only [setRaw]
  rw [dif_pos h]
  rfl

/-- Setting what is read, of a number that fits: the value reads the same
afterwards, also out of its raw bytes. -/
theorem VarData.set_get {d : VarData} {val : CString} (hfits : d.FitsByte) (hget : d.get = some val) :
    (d.set val).2 = 0 ∧ (d.set val).1.get = d.get ∧
      ∀ e : VarData, d.SameKind e → (e.setRaw d.raw).get = (e.setRaw (d.set val).1.raw).get := by
  have hsame (h : d.set val = (d, 0)) : (d.set val).2 = 0 ∧ (d.set val).1.get = d.get ∧
      ∀ e : VarData, d.SameKind e → (e.setRaw d.raw).get = (e.setRaw (d.set val).1.raw).get := by
    rw [h]
    exact ⟨rfl, rfl, fun _ _ => rfl⟩
  cases d with
  | uint8 v dflt =>
    cases hget
    apply hsame
    have hv : (strtoul (decimal v).1 0).1 = v.toNat := (decimal_numeral v).strtoul_small v.toNat_lt
    rw [set, hv, if_neg (by have := hfits.1; omega), UInt32.ofNat_toNat]
  | uint32 v dflt =>
    cases hget
    apply hsame
    have hv : (strtoul (decimal v).1 0).1 = v.toNat := (decimal_numeral v).strtoul_small v.toNat_lt
    rw [set, hv, UInt32.ofNat_toNat]
  | enum32 v dflt names =>
    -- The first of the names that read the same is set.
    obtain ⟨hlt, hname⟩ := List.getElem?_eq_some_iff.1 (show names[v.toNat]? = some val from hget)
    obtain ⟨i, hi⟩ : ∃ i, names.findIdx? (· = val) = some i :=
      Option.isSome_iff_exists.1 (List.findIdx?_isSome.trans
          (List.any_eq_true.2 ⟨val, hname ▸ List.getElem_mem hlt, by simp⟩))
    obtain ⟨hilt, hiname, hbefore⟩ := List.findIdx?_eq_some_iff_getElem.1 hi
    have hle : i ≤ v.toNat := by
      by_contra hgt
      exact hbefore v.toNat (by omega) (by simpa using hname)
    have hv := v.toNat_lt
    have hofNat : (UInt32.ofNat i).toNat = i := by
      rw [UInt32.toNat_ofNat']
      exact Nat.mod_eq_of_lt (by omega)
    have hset : (VarData.enum32 v dflt names).set val = (.enum32 (.ofNat i) dflt names, 0) := by rw [set, hi]
    have hgeti : names[i]? = names[v.toNat]? := by
      rw [List.getElem?_eq_getElem hlt, List.getElem?_eq_getElem hilt, hname]
      exact congrArg some (by simpa using hiname)
    rw [hset]
    refine ⟨rfl, by rw [get, get, hofNat, hgeti], fun e he => ?_⟩
    cases he
    have hback (n : Nat) (hn : n < 2 ^ 32) : leNat (leBytes 4 n) = n := leNat_leBytes_of_lt (by omega)
    simp only [setRaw, raw, get, hofNat, hback _ hv, hback i (by omega), UInt32.toNat_ofNat', Nat.mod_eq_of_lt hv,
      hgeti]
  | mac v dflt =>
    cases hget
    apply hsame
    have hb := (macString_groups v).ethaddrBytes
    rw [v.2] at hb
    rw [set, stringToEthaddr_shape (macString_groups v).shape]
    simp only [hb, Subtype.coe_eta]
  | string s =>
    -- The bytes behind the NUL are lost, though nothing reads them.
    have hval : CString.of s.raw = val := Option.some.inj hget
    have hroom : val.1.length ≤ s.raw.length := by
      rw [← hval]
      exact (List.takeWhile_prefix _).length_le
    obtain ⟨hret, hraw⟩ := stateStringCopyToRaw_get hroom
    have hsize := stateStringCopyToRaw_length s val
    have hset : (VarData.string s).set val = (.string { (stateStringCopyToRaw s val).1 with value := some val },
        0) := by
      simp [set, hret]
    rw [hset]
    refine ⟨rfl, by rw [get, get, hraw, hval], fun e he => ?_⟩
    cases he with
    | string hlen =>
      rw [string_setRaw_get (show (VarData.string s).raw.length = _ from hlen)]
      exact (congrArg some (hval.trans hraw.symm)).trans (string_setRaw_get (hsize.trans hlen)).symm

/-! ## Packed copies -/

/-- The bytes of the one value read like those of the other, in any variable
of their kind. -/
structure ReadsAlike (a b : StateVariable) : Prop where
  name : a.name = b.name
  start : a.start = b.start
  kind : a.data.SameKind b.data
  get : a.data.get = b.data.get
  reload : ∀ e : VarData, a.data.SameKind e → (e.setRaw a.raw).get = (e.setRaw b.raw).get

theorem ReadsAlike.refl (sv : StateVariable) : ReadsAlike sv sv := ⟨rfl, rfl, .refl _, rfl, fun _ _ => rfl⟩

theorem sameReports_of {vars vars' : List StateVariable}
    (h : List.Forall₂ (fun a b => a.name = b.name ∧ a.data.get = b.data.get) vars vars') : SameReports vars vars' := by
  intro name
  induction h with
  | nil => rfl
  | @cons a b vars vars' hab _ ih =>
    simp only [stateGetVar, stateFindVar, List.find?_cons] at ih ⊢
    rw [hab.1]
    by_cases hname : b.name = name
    · simp [hname, hab.2]
    · simpa [hname] using ih

theorem VarData.setRaw_self (d : VarData) (bs : Bytes) : d.setRaw (d.setRaw bs).raw = d.setRaw bs := by
  cases d with
  | uint8 v dflt => simp only [setRaw, raw, List.headD_cons, low_byte]
  | uint32 v dflt =>
    simp only [setRaw, raw]
    rw [leNat_leBytes_of_lt (UInt32.toNat_lt _), UInt32.ofNat_toNat]
  | enum32 v dflt names =>
    simp only [setRaw, raw]
    rw [leNat_leBytes_of_lt (UInt32.toNat_lt _), UInt32.ofNat_toNat]
  | mac v dflt =>
    have hlen := (VarData.mac v dflt).setRaw_size bs
    simp only [setRaw, raw]
    split
    · simp
    · simp [v.2]
  | string s =>
    simp only [setRaw, raw]
    split <;> simp

/-- What unpacking leaves when every variable was stored. -/
def restored (vars into : List StateVariable) : List StateVariable :=
  List.zipWith (fun a e => { e with data := e.data.setRaw a.raw }) vars into

theorem unpack_restored {buf : Bytes} {vars into : List StateVariable} (hsame : SamePlaces vars into)
    (hin : ∀ sv ∈ into, sv.endPos ≤ (BackendRawHeader.parse buf).dataLen)
    (hraw : (into.map (unpackVariable buf)).map StateVariable.raw = vars.map StateVariable.raw) :
    into.map (unpackVariable buf) = restored vars into := by
  induction hsame with
  | nil => rfl
  | @cons a e vars into _ _ ih =>
    simp only [List.map_cons, List.cons.injEq] at hraw
    have he : unpackVariable buf e = { e with
        data := e.data.setRaw (slice (formatRawMinLength + e.start.toNat) e.size buf) } := by
      have := hin e List.mem_cons_self
      rw [unpackVariable, if_neg (by omega)]
    rw [List.map_cons, ih (fun sv hsv => hin sv (List.mem_cons_of_mem _ hsv)) hraw.2, restored, restored,
      List.zipWith_cons_cons, ← hraw.1, he]
    simp only [StateVariable.raw, VarData.setRaw_self]

theorem restored_reports {vars vars' into : List StateVariable} (h : List.Forall₂ ReadsAlike vars vars')
    (hinto : SameVariables vars into) : SameReports (restored vars into) (restored vars' into) := by
  refine sameReports_of ?_
  induction h generalizing into with
  | nil =>
    cases hinto
    exact .nil
  | cons hab _ ih =>
    cases hinto with
    | cons hkind hrest => exact .cons ⟨rfl, hab.reload _ hkind.2.2⟩ (ih hrest)

/-- Whether the digest can be set up does not depend on the variables. -/
theorem backendFormatRawPack_ok {magic : UInt32} {raw raw' : RawFormat} {vars vars' : List StateVariable} {b b' : Bytes}
    (h : backendFormatRawPack magic raw vars = some (raw', .ok b))
    (hdata : backendFormatRawPackData magic raw' vars' = some b') :
    backendFormatRawPack magic raw vars' = some (raw', .ok b') := by
  rw [backendFormatRawPack] at h ⊢
  split at h
  · next hsome =>
    rw [if_pos hsome]
    generalize backendRawDigestInit raw = init at h ⊢
    obtain ⟨r, ret⟩ := init
    simp only at h ⊢
    split at h
    · cases h
    · next h0 =>
      obtain ⟨_, -, he⟩ := Option.map_eq_some_iff.1 h
      cases he
      rw [if_neg h0, hdata]
      rfl
  · next hnone =>
    rw [if_neg hnone]
    obtain ⟨_, -, he⟩ := Option.map_eq_some_iff.1 h
    cases he
    rw [hdata]
    rfl

theorem rawReload_ok {magic : UInt32} {noAuth : Bool} {raw raw' : RawFormat} {vars out : List StateVariable} {b : Bytes}
    {len ret : Int} (hverify : backendFormatRawVerify magic noAuth raw b b.length = some (raw', 0, len))
    (hunpack : backendFormatRawUnpack b vars = some (out, ret)) :
    rawReload magic noAuth raw vars b = some (out, ret) := by
  rw [rawReload, hverify]
  exact hunpack

theorem sameCopies_of {vars vars' : List StateVariable} (hconf : variablesConflict vars = false)
    (hstop : ∀ sv ∈ vars, sv.stop < 2 ^ 16) (h : List.Forall₂ ReadsAlike vars vars') : SameCopies vars vars' := by
  intro magic raw raw' b hpack
  have hplaces : SamePlaces vars vars' := h.imp fun _ _ hab => ⟨hab.start, hab.kind.size⟩
  have hconf' : variablesConflict vars' = false := hplaces.conflict ▸ hconf
  have hstop' : ∀ sv ∈ vars', sv.stop < 2 ^ 16 := (hplaces.stop_iff (· < 2 ^ 16)).1 hstop
  obtain ⟨-, -, hdata⟩ := pack_cases hpack
  have hne' : vars' ≠ [] := by
    rintro rfl
    cases h
    cases hdata
  obtain ⟨b', hdata'⟩ := pack_isSome hne' hconf' hstop' magic raw'
  have hpack' := backendFormatRawPack_ok hpack hdata'
  refine ⟨b', hpack', fun loader noAuth t into halgo hinto => ?_⟩
  have hinto' : SamePlaces vars' into := hplaces.symm.trans hinto.places
  obtain ⟨l, len, hverify, out, hunpack, hraw⟩ :=
      RawRoundTrips.of_fits hconf hpack hstop t loader noAuth into halgo hinto.places
  obtain ⟨l', len', hverify', out', hunpack', hraw'⟩ :=
      RawRoundTrips.of_fits hconf' hpack' hstop' t loader noAuth into halgo hinto'
  obtain ⟨rfl, hin⟩ := unpack_eq hunpack
  obtain ⟨rfl, hin'⟩ := unpack_eq hunpack'
  refine ⟨_, _, 0, rawReload_ok hverify hunpack, rawReload_ok hverify' hunpack', ?_⟩
  rw [unpack_restored hinto.places (hin.1 rfl) hraw, unpack_restored hinto' (hin'.1 rfl) hraw']
  exact restored_reports h hinto

theorem stateSetAnyway_append {behind : List StateVariable} {name val : CString} {sv : StateVariable}
    (hname : sv.name = name) :
    ∀ {before : List StateVariable}, (∀ x ∈ before, x.name ≠ name) → stateSetAnyway (before ++ sv :: behind) name val =
      (before ++ { sv with data := (sv.data.set val).1 } :: behind, (sv.data.set val).2)
  | [], _ => by rw [List.nil_append, stateSetAnyway, if_pos hname, List.nil_append]
  | x :: before, hbefore => by
    rw [List.cons_append, stateSetAnyway, if_neg (hbefore x List.mem_cons_self),
      stateSetAnyway_append hname fun y hy => hbefore y (List.mem_cons_of_mem _ hy)]
    rfl

/-- Where every uint8 fits a byte, the short cut is harmless. -/
theorem shortCutHarmless_of_fits {vars : List StateVariable} (hconf : variablesConflict vars = false)
    (hstop : ∀ sv ∈ vars, sv.stop < 2 ^ 16) (hfits : ∀ sv ∈ vars, sv.data.FitsByte) : ShortCutHarmless vars := by
  intro name val hget
  rw [stateGetVar] at hget
  split at hget
  · cases hget
  next sv hfind =>
  obtain ⟨before, behind, rfl, hbefore, hname⟩ := stateFindVar_split hfind
  have hval : sv.data.get = some val := by simpa using hget
  obtain ⟨hret, hsame, hreload⟩ := VarData.set_get (hfits sv (by simp)) hval
  have halike : List.Forall₂ ReadsAlike (before ++ sv :: behind)
      (before ++ { sv with data := (sv.data.set val).1 } :: behind) :=
    List.rel_append (List.forall₂_same.2 fun x _ => .refl x)
      (.cons ⟨rfl, rfl, sv.data.set_sameKind val, hsame.symm, hreload⟩ (List.forall₂_same.2 fun x _ => .refl x))
  refine ⟨_, ?_, sameReports_of (halike.imp fun _ _ hab => ⟨hab.name, hab.get⟩), sameCopies_of hconf hstop halike⟩
  rw [stateSetAnyway_append hname hbefore, hret]

/-! ## What every operation keeps -/

/-- The value stays of its kind, and fits a byte if it did. -/
def VarData.Kept (d d' : VarData) : Prop := d.SameKind d' ∧ (d.FitsByte → d'.FitsByte)

def VarsKept (vars vars' : List StateVariable) : Prop :=
  List.Forall₂ (fun a b => a.name = b.name ∧ a.start = b.start ∧ a.data.Kept b.data) vars vars'

/-- What a node says about a number fits a byte. -/
def DeviceNode.FitsByte (node : DeviceNode) : Prop :=
  ∀ prop ∈ [cstr "default", cstr "value"], ∀ v, ofPropertyReadU32 node prop = .ok v → v.toNat ≤ 255

theorem VarsKept.refl (vars : List StateVariable) : VarsKept vars vars :=
  List.forall₂_same.2 fun sv _ => ⟨rfl, rfl, .refl sv.data, id⟩

theorem VarsKept.trans {a b c : List StateVariable} (h : VarsKept a b) (h' : VarsKept b c) : VarsKept a c :=
  forall₂_chain (fun _ _ _ hab hbc => ⟨hab.1.trans hbc.1, hab.2.1.trans hbc.2.1, hab.2.2.1.trans hbc.2.2.1,
    hbc.2.2.2 ∘ hab.2.2.2⟩) h h'

theorem VarsKept.same {a b : List StateVariable} (h : VarsKept a b) : SameVariables a b :=
  List.Forall₂.imp (fun _ _ h => ⟨h.1, h.2.1, h.2.2.1⟩) h

theorem VarsKept.fits {a b : List StateVariable} (h : VarsKept a b) (hfits : ∀ sv ∈ a, sv.data.FitsByte) :
    ∀ sv ∈ b, sv.data.FitsByte := by
  induction h with
  | nil => exact hfits
  | cons hab _ ih =>
    rw [List.forall_mem_cons] at hfits ⊢
    exact ⟨hab.2.2.2 hfits.1, ih hfits.2⟩

/-- A variable of the one list is found in the other, of the same type. -/
theorem SameVariables.mem {a b : List StateVariable} (h : SameVariables a b) :
    ∀ sv ∈ b, ∃ sv' ∈ a, sv'.name = sv.name ∧ sv'.data.type = sv.data.type := by
  induction h with
  | nil => simp
  | @cons x y xs ys hab _ ih =>
    intro sv hsv
    rcases List.mem_cons.1 hsv with rfl | hsv
    · exact ⟨x, List.mem_cons_self, hab.1, hab.2.2.type⟩
    · obtain ⟨sv', hmem, h⟩ := ih sv hsv
      exact ⟨sv', List.mem_cons_of_mem _ hmem, h⟩

theorem VarData.set_keeps (d : VarData) (val : CString) : d.Kept (d.set val).1 := by
  refine ⟨d.set_sameKind val, fun hfits => ?_⟩
  cases d with
  | uint8 v dflt =>
    simp only [set]
    split
    · exact hfits
    · next hsmall =>
      refine ⟨?_, hfits.2⟩
      rw [UInt32.toNat_ofNat']
      exact (Nat.mod_le _ _).trans (by omega)
  | uint32 v dflt => trivial
  | enum32 v dflt names =>
    simp only [set]
    split <;> trivial
  | mac v dflt =>
    simp only [set]
    split <;> trivial
  | string s =>
    simp only [set]
    split <;> trivial

theorem VarData.setRaw_keeps (d : VarData) (bs : Bytes) : d.Kept (d.setRaw bs) := by
  refine ⟨d.setRaw_sameKind bs, fun hfits => ?_⟩
  cases d with
  | uint8 v dflt =>
    have hb := (bs.headD 0).toNat_lt
    have hv := hfits.1
    refine ⟨?_, hfits.2⟩
    rw [UInt32.toNat_ofNat']
    exact (Nat.mod_le _ _).trans (by omega)
  | _ => trivial

theorem VarData.inTree_keeps (node : DeviceNode) (d : VarData) : d.Kept (d.inTree node) := by
  refine ⟨d.inTree_sameKind node, fun hd => ?_⟩
  cases d with
  | string s =>
    rw [inTree]
    split <;> trivial
  | _ => exact hd

theorem VarData.freeDefault_keeps (d : VarData) : d.Kept d.freeDefault := by
  cases d with
  | string s =>
    refine ⟨.string ?_, fun _ => trivial⟩
    rw [StateString.freeDefault]
    split <;> rfl
  | _ => exact ⟨.refl _, id⟩

theorem stateUint32Import_fits {node : DeviceNode} (h : node.FitsByte) {dflt : UInt32} (hd : dflt.toNat ≤ 255) :
    (stateUint32Import node dflt).1.toNat ≤ 255 ∧ (stateUint32Import node dflt).2.toNat ≤ 255 := by
  have hread {prop : CString} (hmem : prop ∈ [cstr "default", cstr "value"]) {d : UInt32} (hd : d.toNat ≤ 255) :
      ((ofPropertyReadU32 node prop).toOption.getD d).toNat ≤ 255 := by
    cases hr : ofPropertyReadU32 node prop with
    | error e => exact hd
    | ok v => exact h prop hmem v hr
  have hdflt := hread (by simp : cstr "default" ∈ _) hd
  exact ⟨hread (by simp) hdflt, hdflt⟩

theorem stateEnum32Import_fits {node : DeviceNode} (h : node.FitsByte) {v dflt : UInt32} (hv : v.toNat ≤ 255)
    (hd : dflt.toNat ≤ 255) :
    (stateEnum32Import node v dflt).1.toNat ≤ 255 ∧ (stateEnum32Import node v dflt).2.1.toNat ≤ 255 := by
  have hread {name : CString} (hmem : name ∈ [cstr "default", cstr "value"])
      (hlen : ((ofFindProperty node name).any fun p => p.value.length ≠ 4) = false) {d : UInt32} (hd : d.toNat ≤ 255) :
      (((ofFindProperty node name).map fun p => cell 0 p.value).getD d).toNat ≤ 255 := by
    cases hp : ofFindProperty node name with
    | none => exact hd
    | some p =>
      have h4 : p.value.length = 4 := by simpa [hp] using hlen
      refine h name hmem (cell 0 p.value) ?_
      simp only [ofPropertyReadU32, ofFindPropertyValueOfSize, hp]
      rw [if_neg (by omega)]
      rfl
  simp only [stateEnum32Import]
  split
  · exact ⟨hv, hd⟩
  · next hno =>
    simp only [Bool.or_eq_true, not_or, Bool.not_eq_true] at hno
    have hdflt := hread (by simp) hno.2 hd
    exact ⟨hread (by simp) hno.1 hdflt, hdflt⟩

/-- An import of an agreeing type keeps a value; a uint8 fits if what the node
says does. -/
theorem VariableType.import_kept {vtype : VariableType} {node : DeviceNode} {d d' : VarData} {ret : Int}
    (h : vtype.import node d = some (d', ret)) (hagree : vtype.agrees d) (hnode : d.type = .uint8 → node.FitsByte) :
    d.Kept d' := by
  refine ⟨VariableType.import_sameKind h, fun hd => ?_⟩
  cases d with
  | uint8 v dflt =>
    have hfits := hnode rfl
    cases vtype with
    | uint8 | uint32 =>
      cases h
      exact stateUint32Import_fits hfits hd.2
    | enum32 =>
      cases h
      exact stateEnum32Import_fits hfits hd.1 hd.2
    | mac | string => cases hagree
  | _ =>
    cases VariableType.import_sameKind h
    trivial

theorem VarsKept.cons_refl {sv : StateVariable} {vars vars' : List StateVariable} (h : VarsKept vars vars') :
    VarsKept (sv :: vars) (sv :: vars') := .cons ⟨rfl, rfl, .refl _, id⟩ h

theorem stateSetVar_varsKept {name val : CString} : ∀ {vars vars' : List StateVariable} {set : Bool} {ret : Int},
    stateSetVar vars name val = some (vars', set, ret) → VarsKept vars vars'
  | [], _, _, _, h => by
    cases h
    exact .nil
  | sv :: vars, vars', set, ret, h => by
    rw [stateSetVar] at h
    split at h
    · split at h
      · cases h
      · split at h
        · cases h
          exact .refl _
        · cases h
          exact .cons ⟨rfl, rfl, sv.data.set_keeps val⟩ (VarsKept.refl vars)
    · obtain ⟨⟨vs, s, r⟩, hrest, heq⟩ := Option.map_eq_some_iff.1 h
      cases heq
      exact (stateSetVar_varsKept hrest).cons_refl

theorem backendFormatRawUnpack_varsKept {buf : Bytes} {vars vars' : List StateVariable} {ret : Int}
    (h : backendFormatRawUnpack buf vars = some (vars', ret)) : VarsKept vars vars' := by
  obtain ⟨rfl, -⟩ := unpack_eq h
  refine List.forall₂_map_right_iff.2 (List.forall₂_same.2 fun sv _ => ?_)
  rw [unpackVariable]
  split
  · exact ⟨rfl, rfl, .refl _, id⟩
  · exact ⟨rfl, rfl, sv.data.setRaw_keeps _⟩

theorem stateImportVariable_varsKept {name : CString} {node : DeviceNode} {vtype : VariableType} {ret : Int} :
    ∀ {vars vars' : List StateVariable}, stateImportVariable name node vtype vars = some (vars', ret) →
      (∀ sv ∈ stateFindVar vars name, vtype.agrees sv.data) →
      ((∃ sv ∈ vars, sv.name = name ∧ sv.data.type = .uint8) → node.FitsByte) → VarsKept vars vars'
  | [], _, h, _, _ => by
    cases h
    exact .nil
  | sv :: vars, vars', h, hagree, hnode => by
    rw [stateImportVariable] at h
    rw [stateFindVar, List.find?_cons] at hagree
    split at h
    · next hname =>
      obtain ⟨⟨data, r⟩, himport, heq⟩ := Option.map_eq_some_iff.1 h
      cases heq
      have hkept := VariableType.import_kept himport (hagree sv (by simp [hname])) fun ht =>
        hnode ⟨sv, List.mem_cons_self, hname, ht⟩
      have htree := data.inTree_keeps node
      exact .cons ⟨rfl, rfl, hkept.1.trans htree.1, htree.2 ∘ hkept.2⟩ (VarsKept.refl vars)
    · next hname =>
      obtain ⟨⟨vs, r⟩, hrest, heq⟩ := Option.map_eq_some_iff.1 h
      cases heq
      have hrestNode : (∃ x ∈ vars, x.name = name ∧ x.data.type = .uint8) → node.FitsByte := by
        rintro ⟨x, hx, hxs⟩
        exact hnode ⟨x, List.mem_cons_of_mem _ hx, hxs⟩
      rw [decide_eq_false hname] at hagree
      exact (stateImportVariable_varsKept hrest hagree hrestNode).cons_refl

/-- The nodes of a tree have the types of these variables, and what they say
about a uint8 fits. -/
structure TreeFits (vars : List StateVariable) (vs : List (CString × DeviceNode)) : Prop where
  agree : TypesAgree vars vs
  fits : ∀ v ∈ vs, (∃ sv ∈ vars, sv.name = v.1 ∧ sv.data.type = .uint8) → v.2.FitsByte

theorem TreeFits.kept {vars vars' : List StateVariable} {vs : List (CString × DeviceNode)} (h : TreeFits vars vs)
    (hkept : VarsKept vars vars') : TreeFits vars' vs where
  agree := h.agree.same (hkept.imp fun _ _ hab => ⟨hab.1.symm, hab.2.2.1⟩)
  fits := by
    rintro v hv ⟨sv, hsv, hname, htype⟩
    obtain ⟨sv', hsv', hname', htype'⟩ := hkept.same.mem sv hsv
    exact h.fits v hv ⟨sv', hsv', hname'.trans hname, htype'.trans htype⟩

theorem TreeFits.tail {vars : List StateVariable} {v : CString × DeviceNode} {vs : List (CString × DeviceNode)}
    (h : TreeFits vars (v :: vs)) : TreeFits vars vs where
  agree := h.agree.tail
  fits := fun x hx => h.fits x (List.mem_cons_of_mem _ hx)

theorem convertVisits_varsKept : ∀ {vs : List (CString × DeviceNode)} {vars vars' : List StateVariable} {ret : Int},
    convertVisits false vars vs = some (vars', ret) → TreeFits vars vs → VarsKept vars vars'
  | [], _, _, _, h, _ => by
    cases h
    exact .refl _
  | (name, node) :: vs, vars, vars', ret, h, hfits => by
    simp only [convertVisits, Option.bind_eq_bind, Option.bind_eq_some_iff] at h
    obtain ⟨⟨vars₁, r⟩, hv, h⟩ := h
    have hfirst : VarsKept vars vars₁ := by
      simp only [stateConvertVariable, Bool.false_eq_true, if_false] at hv
      split at hv
      · split at hv <;>
        · cases hv
          exact .refl _
      · next typeName ht =>
        split at hv
        · cases hv
          exact .refl _
        · next vtype hfind =>
          exact stateImportVariable_varsKept hv
            (hfits.agree (name, node) List.mem_cons_self vtype (DeviceNode.variableType_eq ht hfind))
            (hfits.fits (name, node) List.mem_cons_self)
    simp only at h
    split at h
    · cases h
      exact hfirst
    · exact hfirst.trans (convertVisits_varsKept h (hfits.tail.kept hfirst))

theorem stateFromNode_varsKept {s : StateData} {tree : DeviceNode} {vars : List StateVariable} {ret : Int}
    (h : stateFromNode s tree = some (vars, ret)) (hfits : TreeFits s.vars (visitsBelow .empty tree.children)) :
    VarsKept s.vars (vars.map StateVariable.freeDefault) := by
  have hkept : VarsKept s.vars vars := by
    rw [stateFromNode] at h
    split at h
    · cases h
      exact .refl _
    · split at h
      · cases h
        exact .refl _
      · rw [stateConvertChildren_visits] at h
        exact convertVisits_varsKept h hfits
  exact hkept.trans (List.forall₂_map_right_iff.2
      (List.forall₂_same.2 fun sv _ => ⟨rfl, rfl, sv.data.freeDefault_keeps⟩))

/-- The state's description: what it says about each uint8 fits a byte. -/
def Uint8sFit (node : DeviceNode) : Prop :=
  ∀ v ∈ visitsBelow .empty node.children, ofPropertyReadString v.2 (cstr "type") = .ok (cstr "uint8") → v.2.FitsByte

theorem stateFindTypeByName_eq {name : CString} {vtype : VariableType} (h : stateFindTypeByName name = some vtype) :
    name = vtype.typeName := by
  have := List.find?_some h
  simpa using (of_decide_eq_true this).symm

theorem VariableType.create_fits {vtype : VariableType} {node : DeviceNode} {d : VarData}
    (h : vtype.create node = some (.ok d)) : d.FitsByte ∧ d.type = vtype := by
  cases vtype with
  | uint8 =>
    cases h
    exact ⟨⟨by decide, by decide⟩, rfl⟩
  | uint32 =>
    cases h
    exact ⟨trivial, rfl⟩
  | enum32 =>
    simp only [VariableType.create] at h
    split at h <;> cases h
    exact ⟨trivial, rfl⟩
  | mac =>
    cases h
    exact ⟨trivial, rfl⟩
  | string =>
    simp only [VariableType.create] at h
    split at h
    · cases h
    · split at h <;> cases h
      exact ⟨trivial, rfl⟩

theorem convertVisits_created_fits : ∀ {vs : List (CString × DeviceNode)} {vars vars' : List StateVariable} {ret : Int},
    convertVisits true vars vs = some (vars', ret) →
      (∀ v ∈ vs, ofPropertyReadString v.2 (cstr "type") = .ok (cstr "uint8") → v.2.FitsByte) →
      (∀ sv ∈ vars, sv.data.FitsByte) → ∀ sv ∈ vars', sv.data.FitsByte
  | [], _, _, _, h, _, hfits => by
    cases h
    exact hfits
  | (name, node) :: vs, vars, vars', ret, h, hnodes, hfits => by
    simp only [convertVisits, Option.bind_eq_bind, Option.bind_eq_some_iff] at h
    obtain ⟨⟨vars₁, r⟩, hv, h⟩ := h
    have hfirst : ∀ sv ∈ vars₁, sv.data.FitsByte := by
      rcases stateConvertVariable_create hv with ⟨rfl, -⟩ | ⟨typeName, vtype, ht, hfind, hcreate⟩
      · exact hfits
      rcases stateCreateVariable_cases hcreate with ⟨rfl, -⟩ | ⟨data₀, start, -, data, hcr, -, -, himp, rfl⟩
      · exact hfits
      obtain ⟨hzero, htype⟩ := VariableType.create_fits hcr
      have hdata := (VariableType.import_kept himp (htype ▸ VariableType.agrees_type data₀) fun h8 => hnodes (name, node) List.mem_cons_self (by
        rw [ht, stateFindTypeByName_eq hfind, ← htype, h8]
        rfl)).2 hzero
      intro sv hsv
      rcases List.mem_cons.1 ((stateAddVar_perm vars _).mem_iff.1 hsv) with rfl | hsv
      · exact hdata
      · exact hfits sv hsv
    simp only at h
    split at h
    · cases h
      exact hfirst
    · exact convertVisits_created_fits h (fun v hv => hnodes v (List.mem_cons_of_mem _ hv)) hfirst

/-! ## Runs -/

section
variable {F B : Type} {fmt : Format F} {d : Backend B}

theorem stateSave_data (env : Env) (st : State F B) : (stateSave fmt d env st).2.1.data = st.data := by
  simp only [stateSave]
  split
  · rfl
  split
  · rfl
  · rfl
  · simp only [stateSaveBuf]
    split <;> rfl

/-- Whatever this load unpacks. -/
def UnpackKeeps (fmt : Format F) (d : Backend B) (noAuth : Bool) (env : Env) (st : State F B) : Prop :=
  let r := stateStorageRead d.toDriver (fmt.verify st.data.magic noAuth) env st.format st.storage
  r.ret = 0 → ∀ f vars ret, fmt.unpack r.format st.data r.buf r.len = some (f, vars, ret) → VarsKept st.data.vars vars

theorem stateDoLoad_varsKept {noAuth : Bool} {env : Env} {st : State F B} (h : UnpackKeeps fmt d noAuth env st) :
    VarsKept st.data.vars (stateDoLoad fmt d noAuth env st).2.1.data.vars := by
  simp only [UnpackKeeps] at h
  simp only [stateDoLoad]
  split
  · exact .refl _
  next h0 =>
  simp only [stateUnpack]
  split
  · exact .refl _
  · next hunpack => exact h (by simpa using h0) _ _ _ hunpack

/-- A call keeps the variables, if it unpacks nothing that does not. -/
theorem StateCall.exec_varsKept {env : Env} {st : State F B} (call : StateCall)
    (hload : call = .load ∨ call = .loadNoAuth → ∀ noAuth, UnpackKeeps fmt d noAuth env st) :
    VarsKept st.data.vars (call.exec fmt d env st).2.data.vars := by
  cases call with
  | load => exact stateDoLoad_varsKept (hload (.inl rfl) false)
  | loadNoAuth => exact stateDoLoad_varsKept (hload (.inr rfl) true)
  | get name =>
    simp only [exec]
    split <;> exact .refl _
  | set name val =>
    simp only [exec, stateSetCall]
    split
    · exact .refl _
    · next hset => exact stateSetVar_varsKept hset
  | save =>
    simp only [exec, stateSave_data]
    exact .refl _

theorem rawFormat_unpackKeeps (d : Backend B) (noAuth : Bool) (env : Env) (st : State RawFormat B) :
    UnpackKeeps rawFormat d noAuth env st := by
  intro _ f vars ret h
  simp only [rawFormat_unpack, Option.map_eq_some_iff] at h
  obtain ⟨⟨vs, r⟩, hunpack, he⟩ := h
  cases he
  exact backendFormatRawUnpack_varsKept hunpack

/-- The tree that a load of the dtb format imports, if any, has the types of the
variables, and numbers that fit for the uint8 among them. -/
def LoadFits (d : Backend B) (env : Env) (st : State DtbFormat B) : Prop :=
  let r := stateStorageRead d.toDriver dtbVerify env st.format st.storage
  r.ret = 0 → ∀ tree, dtbUsed r.format r.buf = some tree → TreeFits st.data.vars (visitsBelow .empty tree.children)

/-- Unpacking imports the tree that is used, or nothing. -/
theorem dtbUnpack_cases {root root' : DtbFormat} {s : StateData} {buf : Bytes} {len ret : Int}
    {vars : List StateVariable}
    (h : dtbUnpack root s buf len = some (root', vars, ret)) : vars = s.vars ∨ ∃ tree vars₀,
      dtbUsed root buf = some tree ∧ stateFromNode s tree = some (vars₀, ret) ∧
          vars = vars₀.map StateVariable.freeDefault := by
  have himport {tree : DeviceNode} (h : ((stateFromNode s tree).bind fun r => some
      (none, r.1.map StateVariable.freeDefault, r.2)) =
      some (root', vars, ret)) :
      ∃ vars₀, stateFromNode s tree = some (vars₀, ret) ∧ vars = vars₀.map StateVariable.freeDefault := by
    obtain ⟨⟨vars₀, r⟩, hfrom, he⟩ := Option.bind_eq_some_iff.1 h
    cases he
    exact ⟨vars₀, hfrom, rfl⟩
  cases root with
  | some tree =>
    obtain ⟨vars₀, hfrom, he⟩ := himport h
    exact .inr ⟨tree, vars₀, rfl, hfrom, he⟩
  | none =>
    simp only [dtbUnpack, dtbUnpackWith, Option.bind_eq_bind] at h
    obtain ⟨used, hused, h⟩ := Option.bind_eq_some_iff.1 h
    obtain ⟨⟨r, ret₀, len₀⟩, hv, rfl⟩ := Option.map_eq_some_iff.1 hused
    cases dtbVerify_cases hv with
    | short | broken =>
      cases h
      exact .inl rfl
    | @accepted n tree _ _ ht =>
      obtain ⟨vars₀, hfrom, he⟩ := himport h
      have hused : dtbUsed none buf = dtbTree buf := rfl
      exact .inr ⟨tree, vars₀, by rw [hused, dtbTree, ht], hfrom, he⟩

theorem LoadFits.unpackKeeps {junk : DeviceNode → Junk} {env : Env} {st : State DtbFormat B} (h : LoadFits d env st)
    (noAuth : Bool) : UnpackKeeps (dtbFormat junk) d noAuth env st := by
  intro h0 f vars ret hunpack
  rcases dtbUnpack_cases hunpack with rfl | ⟨tree, vars₀, hused, himport, rfl⟩
  · exact .refl _
  · exact stateFromNode_varsKept himport (h h0 tree hused)

/-- The calls of a process in the dtb format whose loads import trees that
fit. -/
def fittingSystem (junk : DeviceNode → Junk) (d : Backend B) (start : Env × State DtbFormat B) :
    System (Env × State DtbFormat B) StateCall where
  init := (stateSystem (dtbFormat junk) d start).init
  step x call x' := (stateSystem (dtbFormat junk) d start).step x call x' ∧
    (call = .load ∨ call = .loadNoAuth → LoadFits d x.1 x.2)

theorem raw_run_varsKept {start x : Env × State RawFormat B} {calls : List StateCall}
    (hrun : (stateSystem rawFormat d start).Run calls x) : VarsKept start.2.data.vars x.2.data.vars := by
  have hinv : (stateSystem rawFormat d start).Invariant fun _ x => VarsKept start.2.data.vars x.2.data.vars := by
    refine ⟨fun hinit => ?_, fun hx hstep => ?_⟩
    · rw [show _ = start from hinit]
      exact .refl _
    · obtain ⟨-, rfl⟩ := hstep
      exact hx.trans (StateCall.exec_varsKept _ fun _ noAuth => rawFormat_unpackKeeps d noAuth _ _)
  exact hinv.run hrun

theorem fitting_run_varsKept {junk : DeviceNode → Junk} {start x : Env × State DtbFormat B} {calls : List StateCall}
    (hrun : (fittingSystem junk d start).Run calls x) : VarsKept start.2.data.vars x.2.data.vars := by
  have hinv : (fittingSystem junk d start).Invariant fun _ x => VarsKept start.2.data.vars x.2.data.vars := by
    refine ⟨fun hinit => ?_, fun hx hstep => ?_⟩
    · rw [show _ = start from hinit]
      exact .refl _
    · obtain ⟨⟨-, rfl⟩, hfits⟩ := hstep
      exact hx.trans (StateCall.exec_varsKept _ fun hload noAuth => (hfits hload).unpackKeeps noAuth)
  exact hinv.run hrun

end

/-- What the description sets up stays harmless as long as the variables are
kept. -/
theorem ShortCutHarmless.of_kept {node : DeviceNode} {s : StateData} (hnode : stateFromNodeCreate node = some (s, 0))
    (hfits : Uint8sFit node) (hsize : ∀ sv ∈ s.vars, sv.stop ≤ 65535) {vars : List StateVariable}
    (h : VarsKept s.vars vars) :
    ShortCutHarmless vars := by
  obtain ⟨magic, -, hcreate, -, hconf⟩ := stateFromNodeCreate_accepted hnode
  rw [stateConvertChildren_visits] at hcreate
  have hplaces := h.same.places
  exact shortCutHarmless_of_fits (hplaces.conflict ▸ hconf)
    ((hplaces.stop_iff (· < 2 ^ 16)).1 fun sv hsv => Nat.lt_succ_of_le (hsize sv hsv))
    (h.fits (convertVisits_created_fits hcreate hfits (by simp)))

/-- **The short cut is harmless** in every state that a process reaches, if no
number above 255 comes into a uint8, from the description or from a tree that is
loaded, whose nodes have the types of their variables, and the variables fit the
length of a raw record. -/
theorem short_cut_harmless {node : DeviceNode} {s : StateData} (hnode : stateFromNodeCreate node = some (s, 0))
    (hfits : Uint8sFit node) (hsize : ∀ sv ∈ s.vars, sv.stop ≤ 65535) {B : Type} (d : Backend B) (env : Env)
    (readonly : Bool) (bs : List B) :
    (∀ raw calls x, (stateSystem rawFormat d (env, stateNew raw readonly s bs)).Run calls x →
      ShortCutHarmless x.2.data.vars) ∧
    ∀ junk root calls x, (fittingSystem junk d (env, stateNew root readonly s bs)).Run calls x →
      ShortCutHarmless x.2.data.vars :=
  ⟨fun _ _ _ hrun => .of_kept hnode hfits hsize (raw_run_varsKept hrun),
    fun _ _ _ _ hrun => .of_kept hnode hfits hsize (fitting_run_varsKept hrun)⟩

/-- A uint8 whose node has a value. -/
def countNode (value : UInt32) : DeviceNode := stateNode [variableNode "count" "uint8" 0 1 [u32Property "value" value]]

/-- One that starts with 5 and is set. -/
theorem short_cut_harmless_count : ∃ s, stateFromNodeCreate (countNode 5) = some (s, 0) ∧
    ShortCutHarmless ((StateCall.set (cstr "count") (cstr "7")).exec rawFormat directBackend .ok
      (stateNew (backendFormatRawCreate none) false s [])).2.data.vars := by
  obtain ⟨s, hs⟩ : ∃ s, acceptedState (countNode 5) = some s := Option.isSome_iff_exists.1 (by decide +kernel)
  have hsize : (acceptedState (countNode 5)).map (fun s => s.vars.all fun sv => decide (sv.stop ≤ 65535)) =
      some true := by
    decide +kernel
  rw [hs, Option.map_some, Option.some.injEq] at hsize
  have hfits : Uint8sFit (countNode 5) := by
    have hvisits : visitsBelow .empty (countNode 5).children =
        [(variableName .empty (cstr "count"), variableNode "count" "uint8" 0 1 [u32Property "value" 5])] := rfl
    intro v hv _ prop hprop n hn
    rw [hvisits, List.mem_singleton] at hv
    subst hv
    have hread : ∀ prop ∈ [cstr "default", cstr "value"],
        ((ofPropertyReadU32 (variableNode "count" "uint8" 0 1 [u32Property "value" 5]) prop).toOption.all
          fun n => decide (n.toNat ≤ 255)) = true := by decide +kernel
    simpa [hn, Except.toOption] using hread prop hprop
  refine ⟨s, acceptedState_eq hs, ?_⟩
  exact (short_cut_harmless (acceptedState_eq hs) hfits (fun sv hsv => by simpa using List.all_eq_true.1 hsize sv hsv)
    directBackend .ok false []).1 (backendFormatRawCreate none) _ _
        (stateSystem_step (.init rfl) rfl (.set (cstr "count") (cstr "7")))

/-- With 300 the value is read, though not accepted again. -/
theorem short_cut_wide : ∃ s, stateFromNodeCreate (countNode 300) = some (s, 0) ∧ ¬ ShortCutHarmless s.vars := by
  obtain ⟨s, hs⟩ : ∃ s, acceptedState (countNode 300) = some s := Option.isSome_iff_exists.1 (by decide +kernel)
  have heval : (acceptedState (countNode 300)).map (fun s =>
      (stateGetVar s.vars (cstr "count"), (stateSetAnyway s.vars (cstr "count") (cstr "300")).2)) =
    some (some (some (cstr "300")), -ERANGE) := by decide +kernel
  rw [hs, Option.map_some, Option.some.injEq, Prod.mk.injEq] at heval
  refine ⟨s, acceptedState_eq hs, fun h => ?_⟩
  obtain ⟨vars', hset, -⟩ := h _ _ heval.1
  have hret : (0 : Int) = -ERANGE := (congrArg Prod.snd hset).symm.trans heval.2
  exact absurd hret (by decide)

end DtUtils
