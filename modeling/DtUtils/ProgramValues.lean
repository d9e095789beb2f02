/-
`barebox-state` is a dictionary. A third library keeps for each site the variables
that were saved last, with nothing in between: no raw format, no buckets. If the
numbers of the description fit their variables and the stride has room, runs on
buckets that hold complete records, or nothing, are runs on that dictionary
(`program_dictionary`).
-/
import DtUtils.ProgramRuns

namespace DtUtils
open Lib

/-! ## The library of values -/

/-- For each site the variables that were saved last, if any. -/
structure Dictionary where
  alive : Bool
  saved : Nat → Option (List StateVariable)

/-- A state of the process. -/
structure ValueState where
  site : Nat
  readonly : Bool
  data : StateData
  dirty : Bool

section
variable (sites : Nat → Site) (findNode : Option CString → Option CString → Except Int Nat)

/-- A load finds what was saved. -/
def ValueState.load (v : Dictionary) (q : ValueState) : Dictionary × ValueState × Int :=
  match v.saved q.site with
  | none => (v, { q with dirty := true }, -ENOENT)
  | some vars => (v, { q with data := { q.data with vars := vars }, dirty := false }, 0)

/-- A save of a state that was opened for writing takes what is there. -/
def ValueState.save (v : Dictionary) (q : ValueState) : Dictionary × ValueState × Int :=
  if q.dirty = false then (v, q, 0)
  else if q.readonly then (v, { q with dirty := false }, 0)
  else ({ v with saved := Function.update v.saved q.site (some q.data.vars) }, { q with dirty := false }, 0)

end

/-! ## Values and their bytes -/

/-- A site whose records are read back as they were saved. -/
structure Site.Faithful (site : Site) (name : CString) (stride : UInt32) (s : StateData) : Prop
    extends site.Sound name stride s where
  fits : ∀ sv ∈ s.vars, sv.data.FitsByte
  spacious : ∀ sv ∈ s.vars, 16 + sv.stop + 8 ≤ stride.toNat

/-- A payload that was packed from the variables. -/
structure RecordOf (s : StateData) (vars : List StateVariable) (buf : Bytes) : Prop where
  kept : VarsKept s.vars vars
  length : 16 + (BackendRawHeader.parse buf).dataLen = buf.length
  stored : ValuesStored vars buf

/-- What a record makes of any value of its kind reads like the value itself. -/
theorem VarData.setRaw_alike {a b : VarData} (h : a.SameKind b) (ha : a.FitsByte) (hb : b.FitsByte) :
    (a.setRaw b.raw).Alike b := by
  cases h with
  | @uint8 v dflt w dflt' =>
    have hv : v.toNat / 256 = 0 := by
      have := ha.1
      omega
    have hw : (w.toUInt8).toNat = w.toNat := by
      have := hb.1
      simp only [UInt32.toNat_toUInt8]
      omega
    simp only [setRaw, raw, List.headD_cons, hv, hw, Nat.zero_mul, Nat.zero_add, UInt32.ofNat_toNat]
    exact .uint8
  | @uint32 v dflt w dflt' =>
    have hw : leNat (leBytes 4 w.toNat) = w.toNat := leNat_leBytes_of_lt w.toNat_lt
    simp only [setRaw, raw, hw, UInt32.ofNat_toNat]
    exact .uint32
  | @enum32 v dflt w dflt' names =>
    have hw : leNat (leBytes 4 w.toNat) = w.toNat := leNat_leBytes_of_lt w.toNat_lt
    simp only [setRaw, raw, hw, UInt32.ofNat_toNat]
    exact .enum32
  | @mac v dflt w dflt' =>
    have hset : (VarData.mac v dflt).setRaw (VarData.mac w dflt').raw = .mac w dflt :=
      congrArg (VarData.mac · dflt) (dif_pos w.2)
    rw [hset]
    exact .mac
  | @string s t hlen =>
    have hraw : ((VarData.string s).setRaw t.raw).raw = t.raw := VarData.setRaw_raw hlen.symm
    simp only [setRaw] at hraw ⊢
    exact .string hraw

theorem VarData.Alike.raw {a b : VarData} (h : a.Alike b) : a.raw = b.raw := by
  cases h with
  | string hraw => exact hraw
  | _ => rfl

theorem VarsAlike.stored {vars vars' : List StateVariable} (h : VarsAlike vars vars') {buf : Bytes}
    (hstored : ValuesStored vars buf) : ValuesStored vars' buf := by
  induction h with
  | nil => exact hstored
  | @cons a b vars vars' hab _ ih =>
    obtain ⟨-, hstart, hdata⟩ := hab
    have hraw : a.raw = b.raw := hdata.raw
    have hsize : a.size = b.size := by rw [← a.raw_length, hraw, b.raw_length]
    rw [ValuesStored, List.forall_mem_cons] at hstored ⊢
    refine ⟨?_, ih hstored.2⟩
    rw [StateVariable.stop, ← hstart, ← hsize, ← hraw]
    exact hstored.1

theorem restored_alike {vars into : List StateVariable} (h : VarsKept into vars)
    (hfits : ∀ sv ∈ into, sv.data.FitsByte) : VarsAlike (restored vars into) vars := by
  induction h with
  | nil => exact .nil
  | cons hab _ ih =>
    obtain ⟨hname, hstart, hkept⟩ := hab
    rw [List.forall_mem_cons] at hfits
    exact .cons ⟨hname, hstart, VarData.setRaw_alike hkept.1 hfits.1 (hkept.2 hfits.1)⟩ (ih hfits.2)

theorem RecordOf.unpack {s : StateData} {vars : List StateVariable} {buf : Bytes} (h : RecordOf s vars buf)
    (hfits : ∀ sv ∈ s.vars, sv.data.FitsByte) :
    ∃ out, backendFormatRawUnpack buf s.vars = some (out, 0) ∧ VarsAlike out vars := by
  obtain ⟨out, hout, hraw⟩ := unpack_stored h.kept.same.places.symm h.stored
  obtain ⟨rfl, hin⟩ := unpack_eq hout
  refine ⟨_, hout, ?_⟩
  rw [unpack_restored h.kept.same.places.symm (hin.1 rfl) hraw]
  exact restored_alike h.kept hfits

/-- A packed payload is a record, and has room in its bucket. -/
theorem Site.Faithful.packed {site : Site} {name : CString} {stride : UInt32} {s : StateData}
    (h : site.Faithful name stride s) {vars vars' : List StateVariable} (hkept : VarsKept s.vars vars)
    (hkept' : VarsKept s.vars vars') (halike : VarsAlike vars vars') :
    ∃ buf, backendFormatRawPackData s.magic (backendFormatRawCreate none) vars = some buf ∧
      buf.length + 8 ≤ stride.toNat ∧ RecordOf s vars' buf := by
  have hplaces := hkept.same.places
  have hne : vars ≠ [] := fun hnil => h.vars (List.eq_nil_of_length_eq_zero (by
    have := hplaces.length_eq
    rwa [hnil] at this))
  have hconf : variablesConflict vars = false := by
    obtain ⟨_, -, -, -, hconf⟩ := stateFromNodeCreate_accepted h.accepted
    rwa [← hplaces.conflict]
  obtain ⟨buf, hbuf, -, hok, hpass, hstored⟩ := packed_passedOn s.magic hne hconf
    ((hplaces.stop_iff (· < 2 ^ 16)).1 h.stop)
  have hdata := passedOn_dataLen hok
  rw [hpass] at hdata
  refine ⟨buf, hbuf, ?_, hkept', hdata, halike.stored hstored⟩
  obtain ⟨last, data, hlast, hlen, -, -, rfl⟩ := packData_eq hbuf
  have hroom := (hplaces.stop_iff (16 + · + 8 ≤ stride.toNat)).1 h.spacious last (List.mem_of_getLast? hlast)
  have hend : last.endPos ≤ last.stop := Nat.mod_le _ _
  have htag : (authTag (backendFormatRawCreate none).digest ((rawPackHeader s.magic last.endPos data).bytes ++
    data.take last.endPos)).length = 0 := rfl
  simp only [List.length_append, BackendRawHeader.bytes_length, List.length_take, htag]
  omega

/-! ## Cells and values -/

section
variable {sites : Nat → Site}

/-- A cell and what was saved: nothing in both, or a record of the variables. -/
inductive Recorded (s : StateData) : Option Bytes → Option (List StateVariable) → Prop
  | none : Recorded s none none
  | some {buf : Bytes} {vars : List StateVariable} : RecordOf s vars buf → Recorded s (some buf) (some vars)

/-- The cells of the sites that can be opened are the dictionary's. -/
def AllRecorded (sites : Nat → Site) (cells : Nat → Option Bytes) (saved : Nat → Option (List StateVariable)) : Prop :=
  ∀ i name stride s, (sites i).Faithful name stride s → Recorded s (cells i) (saved i)

structure DictionaryRelated (sites : Nat → Site) (c : Cells) (v : Dictionary) : Prop where
  alive : c.alive = v.alive
  recorded : AllRecorded sites c.cells v.saved

/-- A state of the process, and the same without its format. -/
structure ValueRelated (sites : Nat → Site) (q : CellState) (v : ValueState) : Prop where
  site : q.site = v.site
  readonly : q.readonly = v.readonly
  dirty : q.dirty = v.dirty
  alike : VarsAlike q.data.vars v.data.vars
  faithful : ∃ name stride s, (sites q.site).Faithful name stride s ∧ q.stride = stride.toNat ∧ q.data.magic = s.magic ∧
    VarsKept s.vars q.data.vars ∧ VarsKept s.vars v.data.vars

theorem AllRecorded.update {cells : Nat → Option Bytes} {saved : Nat → Option (List StateVariable)}
    (h : AllRecorded sites cells saved) {i : Nat} {name : CString} {stride : UInt32} {s : StateData}
    (hsite : (sites i).Faithful name stride s) {buf : Bytes} {vars : List StateVariable} (hrec : RecordOf s vars buf) :
    AllRecorded sites (Function.update cells i (some buf)) (Function.update saved i (some vars)) := by
  intro j name' stride' s' hj
  by_cases hji : j = i
  · subst hji
    have hs := hsite.accepted.symm.trans hj.accepted
    cases hs
    rw [Function.update_self, Function.update_self]
    exact .some hrec
  · rw [Function.update_of_ne hji, Function.update_of_ne hji]
    exact h j name' stride' s' hj

theorem ValueRelated.save {q : CellState} {v : ValueState} (h : ValueRelated sites q v) {c : Cells} {d : Dictionary}
    (hd : DictionaryRelated sites c d) :
    DictionaryRelated sites (q.save c).1 (v.save d).1 ∧ ValueRelated sites (q.save c).2.1 (v.save d).2.1 ∧
      (q.save c).2.2 = (v.save d).2.2 := by
  obtain ⟨hsite, hreadonly, hdirty, halike, name, stride, s, hfaithful, hstride, hmagic, hkept, hkept'⟩ := h
  obtain ⟨buf, hbuf, hroom, hrec⟩ := hfaithful.packed hkept hkept' halike
  obtain ⟨i, stride', readonly, data, dirty⟩ := q
  obtain ⟨i', readonly', data', dirty'⟩ := v
  simp only at hsite hreadonly hdirty halike hfaithful hstride hmagic hkept hkept' hrec hbuf
  subst hsite hreadonly hdirty hstride
  have hrel (dirty : Bool) : ValueRelated sites ⟨i, stride.toNat, readonly, data, dirty⟩ ⟨i, readonly, data', dirty⟩ :=
    ⟨rfl, rfl, rfl, halike, name, stride, s, hfaithful, rfl, hmagic, hkept, hkept'⟩
  simp only [CellState.save, ValueState.save, hmagic, hbuf, hroom, if_true]
  split
  · exact ⟨hd, hrel dirty, rfl⟩
  split
  · exact ⟨hd, hrel false, rfl⟩
  · exact ⟨⟨hd.alive, hd.recorded.update hfaithful hrec⟩, hrel false, rfl⟩

end

end DtUtils
