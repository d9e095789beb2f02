/-
Writing properties. Every write deletes the first property of its name and
appends a new one, every read takes the first; so the last write wins as long
as a name that is written does not occur twice (`writes_like_map_iff`). `none`
results are writes outside a property, or memory that cannot be had.
-/
import DtUtils.PropertyRead
import DtUtils.StringLists
import DtUtils.PartitionCells
import DtUtils.Unflatten
import Mathlib.Data.List.Induction

namespace DtUtils
open Lib

/-! ## The writes -/

/-- `of_get_property` -/
def ofGetProperty (np : DeviceNode) (name : CString) : Option Bytes := (ofFindProperty np name).map (·.value)

def DeviceNode.withProperties : DeviceNode → List Property → DeviceNode
  | .node name phandle _ children, properties => .node name phandle properties children

/-- `of_delete_property` of the first property with the name, if there is one -/
def ofDeleteProperty (properties : List Property) (name : CString) : List Property :=
  properties.eraseP (·.name = name)

/-- `of_new_property` with `len` bytes of `data` -/
def ofNewProperty (properties : List Property) (name : CString) (data : Bytes) (len : Int) : Option (List Property) :=
  if len < 0 then none else some (properties ++ [⟨name, data.take len.toNat⟩])

/-- `of_set_property` -/
def ofSetProperty (properties : List Property) (name : CString) (val : Bytes) (len : Int) (create : Bool) :
    Option (List Property × Int) :=
  if (properties.find? (·.name = name)).isNone ∧ ¬ create then some (properties, -ENOENT)
  else (ofNewProperty (ofDeleteProperty properties name) name val len).map fun properties => (properties, 0)

/-- The array writes: each element in `w` bytes. A new property that is smaller
than that is written behind its end. -/
def writeArray {α : Type} (w : Nat) (toNat : α → Nat) (properties : List Property) (propname : CString)
    (values : List α) : Option (List Property × Int) :=
  let bytes := values.flatMap fun x => beBytes w (toNat x)
  let len := cInt (w * values.length : Nat)
  if len < (w * values.length : Nat) then none
  else (ofNewProperty (ofDeleteProperty properties propname) propname bytes len).map fun properties => (properties, 0)

/-- `of_property_write_u8_array` -/
def ofPropertyWriteU8Array : List Property → CString → List UInt8 → Option (List Property × Int) :=
  writeArray 1 UInt8.toNat

/-- `of_property_write_u16_array` -/
def ofPropertyWriteU16Array : List Property → CString → List UInt16 → Option (List Property × Int) :=
  writeArray 2 UInt16.toNat

/-- `of_property_write_u32_array` -/
def ofPropertyWriteU32Array : List Property → CString → List UInt32 → Option (List Property × Int) :=
  writeArray 4 UInt32.toNat

/-- `of_property_write_u64_array` -/
def ofPropertyWriteU64Array : List Property → CString → List UInt64 → Option (List Property × Int) :=
  writeArray 8 UInt64.toNat

/-- `of_property_write_strings` -/
def ofPropertyWriteStrings (properties : List Property) (propname : CString) (strings : List CString) :
    Option (List Property × Int) :=
  let buf := stringListBytes strings
  if buf = [] then some (properties, -EINVAL) else ofSetProperty properties propname buf (cInt buf.length) true

/-- `of_property_write_string` -/
def ofPropertyWriteString (properties : List Property) (propname value : CString) : Option (List Property × Int) :=
  ofSetProperty properties propname (value.1 ++ [0]) (cInt (value.1.length + 1 : Nat)) true

/-- `of_property_write_bool` -/
def ofPropertyWriteBool (properties : List Property) (propname : CString) (value : Bool) :
    Option (List Property × Int) :=
  if ¬ value then some (ofDeleteProperty properties propname, 0)
  else if (properties.find? (·.name = propname)).isSome then some (properties, 0)
  else (ofNewProperty properties propname [] 0).map fun properties => (properties, 0)

/-- `of_property_read_u64` -/
def ofPropertyReadU64 (np : DeviceNode) (propname : CString) : Option (Except Int UInt64) :=
  match ofFindPropertyValueOfSize np propname 8 with
  | .error e => some (.error e)
  | .ok val => (ofReadNumber val 2).map .ok

/-! ## Sequences of writes -/

/-- A write to a property. -/
inductive PropertyWrite
  | set (val : Bytes)
  | u8 (values : List UInt8)
  | u16 (values : List UInt16)
  | u32 (values : List UInt32)
  | u64 (values : List UInt64)
  | strings (values : List CString)
  | string (value : CString)
  | absent

/-- The write to the property with this name. The length of `of_set_property`
is an `int` already. -/
def PropertyWrite.apply (properties : List Property) (name : CString) : PropertyWrite → Option (List Property × Int)
  | .set val => ofSetProperty properties name val (cInt val.length) true
  | .u8 values => ofPropertyWriteU8Array properties name values
  | .u16 values => ofPropertyWriteU16Array properties name values
  | .u32 values => ofPropertyWriteU32Array properties name values
  | .u64 values => ofPropertyWriteU64Array properties name values
  | .strings values => ofPropertyWriteStrings properties name values
  | .string value => ofPropertyWriteString properties name value
  | .absent => ofPropertyWriteBool properties name false

/-- The property's bytes behind the write; the inner `none` is no property. No
strings at all are refused. -/
def PropertyWrite.bytes : PropertyWrite → Option (Option Bytes)
  | .set val => some (some val)
  | .u8 values => some (some (values.flatMap fun x => beBytes 1 x.toNat))
  | .u16 values => some (some (values.flatMap fun x => beBytes 2 x.toNat))
  | .u32 values => some (some (values.flatMap fun x => beBytes 4 x.toNat))
  | .u64 values => some (some (values.flatMap fun x => beBytes 8 x.toNat))
  | .strings values => if values = [] then none else some (some (stringListBytes values))
  | .string value => some (some (value.1 ++ [0]))
  | .absent => some none

/-- The read function for what was written returns it. -/
def PropertyWrite.ReadBack (np : DeviceNode) (name : CString) : PropertyWrite → Prop
  | .set _ => True
  | .u8 values => ofPropertyReadU8Array np name (.ofNat values.length) = some (.ok values)
  | .u16 values => ofPropertyReadU16Array np name (.ofNat values.length) = some (.ok values)
  | .u32 values => ofPropertyReadU32Array np name (.ofNat values.length) = some (.ok values)
  | .u64 values => ∀ x ∈ values.head?, ofPropertyReadU64 np name = some (.ok x)
  | .strings values => StringsRead np name values
  | .string value => ofPropertyReadString np name = .ok value
  | .absent => True

/-- The properties behind a sequence of writes. -/
def writeAll (properties : List Property) (writes : List (CString × PropertyWrite)) : Option (List Property) :=
  writes.foldlM (fun properties (name, w) => (w.apply properties name).map Prod.fst) properties

/-- The last write that has an effect on this name. -/
def lastWritten (name : CString) (writes : List (CString × PropertyWrite)) : Option PropertyWrite :=
  ((writes.filter fun (n, w) => n = name ∧ w.bytes.isSome).map Prod.snd).getLast?

/-- Behind the writes the properties are a map: each name has what was last
written to it, and the properties that were not written are as before. -/
structure LikeMap (np : DeviceNode) (writes : List (CString × PropertyWrite)) (np' : DeviceNode) : Prop where
  written : ∀ name w, lastWritten name writes = some w → w.bytes = some (ofGetProperty np' name) ∧ w.ReadBack np' name
  others : np'.properties.filter (fun p => lastWritten p.name writes = none) =
    np.properties.filter fun p => lastWritten p.name writes = none

/-- What a write finds: the name at most once, or what is to be written behind
it already, and an `int` holds the length. -/
def StepFits (properties : List Property) (name : CString) (w : PropertyWrite) : Prop :=
  ∀ b ∈ w.bytes, (∀ v ∈ b, v.length < 2 ^ 31) ∧
    ∀ second ∈ (properties.filter (·.name = name))[1]?, b = some second.value

/-- All writes of a sequence do. -/
def WritesFit (np : DeviceNode) (writes : List (CString × PropertyWrite)) : Prop :=
  ∀ done name w rest, writes = done ++ (name, w) :: rest →
    ∀ properties, writeAll np.properties done = some properties → StepFits properties name w

/-! ## One write -/

section
variable {properties : List Property} {name : CString} {w : PropertyWrite}

theorem ofNewProperty_nat (v : Bytes) :
    ofNewProperty properties name v (v.length : Int) = some (properties ++ [⟨name, v⟩]) := by
  rw [ofNewProperty, if_neg (by omega), Int.toNat_natCast, List.take_length]

theorem ofSetProperty_create (v : Bytes) (len : Int) : ofSetProperty properties name v len true =
    (ofNewProperty (ofDeleteProperty properties name) name v len).map fun properties => (properties, 0) := by
  rw [ofSetProperty, if_neg (by simp)]

theorem flatMap_beBytes_length {α : Type} (w : Nat) (toNat : α → Nat) (values : List α) :
    (values.flatMap fun x => beBytes w (toNat x)).length = w * values.length := by
  induction values with
  | nil => rfl
  | cons x xs ih =>
    rw [List.flatMap_cons, List.length_append, ih, beBytes_length, List.length_cons]
    ring

/-- A write that goes through leaves the property at the end, with as much of
its bytes as an `int` counts; all of them if it holds their number. -/
theorem PropertyWrite.apply_some {v : Bytes} (h : w.bytes = some (some v)) :
    (v.length < 2 ^ 31 → w.apply properties name = some (ofDeleteProperty properties name ++ [⟨name, v⟩], 0)) ∧
    ∀ r, w.apply properties name = some r → ∃ v', r.1 = ofDeleteProperty properties name ++ [⟨name, v'⟩] ∧
      v'.length < 2 ^ 31 := by
  -- The string and byte writes go through `of_set_property`.
  have hset : ∀ {v : Bytes}, (v.length < 2 ^ 31 → ofSetProperty properties name v (cInt v.length) true =
        some (ofDeleteProperty properties name ++ [⟨name, v⟩], 0)) ∧
      ∀ r, ofSetProperty properties name v (cInt v.length) true = some r →
        ∃ v', r.1 = ofDeleteProperty properties name ++ [⟨name, v'⟩] ∧ v'.length < 2 ^ 31 := by
    intro v
    constructor
    · intro hlt
      rw [ofSetProperty_create, cInt_nat hlt, ofNewProperty_nat, Option.map_some]
    · intro r hr
      rw [ofSetProperty_create, ofNewProperty] at hr
      split at hr
      · cases hr
      · cases hr
        refine ⟨_, rfl, ?_⟩
        rw [List.length_take]
        by_cases hlt : v.length < 2 ^ 31
        · omega
        · have := cInt_lt_of_le (not_lt.1 hlt)
          omega
  have harray : ∀ {α : Type} {k : Nat} {toNat : α → Nat} {values : List α},
      v = values.flatMap (fun x => beBytes k (toNat x)) →
      (v.length < 2 ^ 31 → writeArray k toNat properties name values =
        some (ofDeleteProperty properties name ++ [⟨name, v⟩], 0)) ∧
      ∀ r, writeArray k toNat properties name values = some r →
        ∃ v', r.1 = ofDeleteProperty properties name ++ [⟨name, v'⟩] ∧ v'.length < 2 ^ 31 := by
    intro α k toNat values hv
    have hlen := flatMap_beBytes_length k toNat values
    rw [← hv] at hlen
    have hfits : v.length < 2 ^ 31 → writeArray k toNat properties name values =
        some (ofDeleteProperty properties name ++ [⟨name, v⟩], 0) := by
      intro hlt
      simp only [writeArray, ← hv, ← hlen, cInt_nat hlt, lt_irrefl, if_false, ofNewProperty_nat, Option.map_some]
    refine ⟨hfits, fun r hr => ?_⟩
    by_cases hlt : v.length < 2 ^ 31
    · rw [hfits hlt, Option.some.injEq] at hr
      exact ⟨v, hr ▸ rfl, hlt⟩
    · simp only [writeArray, ← hlen, if_pos (cInt_lt_of_le (not_lt.1 hlt)).1, reduceCtorEq] at hr
  cases w with
  | set val =>
    obtain rfl : val = v := by simpa [PropertyWrite.bytes] using h
    exact hset
  | u8 values => exact harray (by simpa [PropertyWrite.bytes] using h.symm)
  | u16 values => exact harray (by simpa [PropertyWrite.bytes] using h.symm)
  | u32 values => exact harray (by simpa [PropertyWrite.bytes] using h.symm)
  | u64 values => exact harray (by simpa [PropertyWrite.bytes] using h.symm)
  | strings values =>
    simp only [PropertyWrite.bytes] at h
    split at h
    · cases h
    · next hne =>
      obtain rfl : stringListBytes values = v := by simpa using h
      have hbuf : stringListBytes values ≠ [] := by
        intro hnil
        have hlast := stringListBytes_getLast? hne
        rw [hnil] at hlast
        cases hlast
      simp only [PropertyWrite.apply, ofPropertyWriteStrings, if_neg hbuf]
      exact hset
  | string value =>
    obtain rfl : value.1 ++ [0] = v := by simpa [PropertyWrite.bytes] using h
    have hlen : (value.1 ++ [0]).length = value.1.length + 1 := by simp
    simp only [PropertyWrite.apply, ofPropertyWriteString, ← hlen]
    exact hset
  | absent => simp [PropertyWrite.bytes] at h

end

/-! ## Reading back -/

section
variable {np : DeviceNode} {name : CString}

theorem beElements_flatMap {α : Type} {k : Nat} {toNat : α → Nat} (hlt : ∀ x, toNat x < 256 ^ k) :
    ∀ values : List α,
      beElements k values.length (values.flatMap fun x => beBytes k (toNat x)) = some (values.map toNat)
  | [] => rfl
  | x :: xs => by
    have hlen : (beBytes k (toNat x)).length = k := beBytes_length ..
    rw [List.flatMap_cons, List.length_cons, beElements, if_neg (by rw [List.length_append]; omega),
      List.drop_left' hlen, List.take_left' hlen, beElements_flatMap hlt xs, beNat_beBytes_of_lt (hlt x)]
    rfl

theorem readArray_written {α : Type} {k : Nat} {toNat : α → Nat} {ofNat : Nat → α} (hk : 0 < k)
    (hlt : ∀ x, toNat x < 256 ^ k) (hof : ∀ x, ofNat (toNat x) = x) {values : List α} {p : Property}
    (hp : ofFindProperty np name = some p) (hvalue : p.value = values.flatMap fun x => beBytes k (toNat x))
    (hsize : p.value.length < 2 ^ 31) :
    readArray k ofNat np name (.ofNat values.length) = some (.ok values) := by
  have hlen := flatMap_beBytes_length k toNat values
  rw [← hvalue] at hlen
  have hcount : values.length ≤ k * values.length := Nat.le_mul_of_pos_left _ hk
  have hn : (UInt64.ofNat values.length).toNat = values.length := UInt64.toNat_ofNat_of_lt' (by
    show values.length < 2 ^ 64
    omega)
  have hsame : lenOf (values.length * k) = p.value.length := by
    rw [lenOf_eq, Nat.mul_comm, ← hlen]
    omega
  rw [readArray, hn, ofFindPropertyValueOfSize, hp]
  simp only [hsame, lt_irrefl, if_false]
  rw [hvalue, beElements_flatMap hlt, Option.map_some, List.map_map]
  congr 2
  exact (List.map_congr_left fun x _ => hof x).trans (List.map_id values)

theorem ofPropertyReadU64_written {x : UInt64} {rest : Bytes} {p : Property} (hp : ofFindProperty np name = some p)
    (hvalue : p.value = beBytes 8 x.toNat ++ rest) : ofPropertyReadU64 np name = some (.ok x) := by
  have hlen : 8 ≤ p.value.length := by
    rw [hvalue, List.length_append, beBytes_length]
    omega
  obtain ⟨v, hv, hval⟩ := @ofReadNumber_eq_some p.value 2 (by omega)
  have hx : v = x := by
    apply UInt64.toNat_inj.1
    rw [hval, hvalue, List.take_left' (beBytes_length ..), beNat_beBytes]
    have := x.toNat_lt
    omega
  have hv' : ofReadNumber p.value 2 = some v := hv
  rw [ofPropertyReadU64, ofFindPropertyValueOfSize, hp]
  simp only [if_neg (not_lt.2 hlen), hv', Option.map_some, hx]

/-- What a property holds is read back by the function for it. -/
theorem PropertyWrite.readBack {w : PropertyWrite} (h : w.bytes = some (ofGetProperty np name))
    (hsize : ∀ v ∈ ofGetProperty np name, v.length < 2 ^ 31) : w.ReadBack np name := by
  have hfound : ∀ {v : Bytes}, w.bytes = some (some v) → ∃ p, ofFindProperty np name = some p ∧ p.value = v ∧
      p.value.length < 2 ^ 31 := by
    intro v hv
    rw [h, Option.some.injEq] at hv
    obtain ⟨p, hp, rfl⟩ := Option.map_eq_some_iff.1 hv
    exact ⟨p, hp, rfl, hsize _ hv⟩
  cases w with
  | set val => trivial
  | absent => trivial
  | u8 values =>
    obtain ⟨p, hp, hvalue, hlt⟩ := hfound rfl
    exact readArray_written (by decide) (fun x => x.toNat_lt) (fun x => UInt8.ofNat_toNat) hp hvalue hlt
  | u16 values =>
    obtain ⟨p, hp, hvalue, hlt⟩ := hfound rfl
    exact readArray_written (by decide) (fun x => x.toNat_lt) (fun x => UInt16.ofNat_toNat) hp hvalue hlt
  | u32 values =>
    obtain ⟨p, hp, hvalue, hlt⟩ := hfound rfl
    exact readArray_written (by decide) (fun x => x.toNat_lt) (fun x => UInt32.ofNat_toNat) hp hvalue hlt
  | u64 values =>
    obtain ⟨p, hp, hvalue, -⟩ := hfound rfl
    intro x hx
    cases values with
    | nil => cases hx
    | cons y ys =>
      cases hx
      exact ofPropertyReadU64_written hp hvalue
  | strings values =>
    by_cases hne : values = []
    · simp [PropertyWrite.bytes, hne] at h
    · obtain ⟨p, hp, hvalue, -⟩ := hfound (if_neg hne)
      exact stringsRead hp hne hvalue
  | string value =>
    obtain ⟨p, hp, hvalue, -⟩ := hfound rfl
    rw [PropertyWrite.ReadBack, ofPropertyReadString, hp]
    simp only [hvalue, List.mem_append, List.mem_singleton, or_true, if_true, CString.of_terminated value []]

end

/-! ## Sequences -/

section
variable {properties : List Property} {name : CString} {w : PropertyWrite}

/-- The properties behind a write of these bytes, or behind a deletion. -/
def written (properties : List Property) (name : CString) (b : Option Bytes) : List Property :=
  ofDeleteProperty properties name ++ (b.map (Property.mk name)).toList

theorem PropertyWrite.apply_fits {b : Option Bytes} (h : StepFits properties name w) (hb : w.bytes = some b) :
    w.apply properties name = some (written properties name b, 0) := by
  cases b with
  | some v => exact (PropertyWrite.apply_some hb).1 ((h _ hb).1 v rfl)
  | none =>
    cases w with
    | absent => simp [PropertyWrite.apply, ofPropertyWriteBool, written]
    | strings values => simp [PropertyWrite.bytes] at hb
    | _ => simp [PropertyWrite.bytes] at hb

/-- Whatever a write comes to, it leaves no property longer than an `int` counts. -/
theorem PropertyWrite.apply_written {b : Option Bytes} (hb : w.bytes = some b) {r : List Property × Int}
    (h : w.apply properties name = some r) :
    ∃ b', r.1 = written properties name b' ∧ ∀ v ∈ b', v.length < 2 ^ 31 := by
  cases b with
  | some v =>
    obtain ⟨v', hr, hlt⟩ := (PropertyWrite.apply_some hb).2 r h
    exact ⟨some v', hr, fun u hu => by cases hu; exact hlt⟩
  | none =>
    cases w with
    | absent =>
      refine ⟨none, ?_, fun u hu => by cases hu⟩
      simp only [PropertyWrite.apply, ofPropertyWriteBool, Bool.false_eq_true, not_false_eq_true, if_true,
        Option.some.injEq] at h
      rw [← h, written, Option.map_none, Option.toList_none, List.append_nil]
    | strings values => simp [PropertyWrite.bytes] at hb
    | _ => simp [PropertyWrite.bytes] at hb

theorem PropertyWrite.apply_refused (hb : w.bytes = none) : w.apply properties name = some (properties, -EINVAL) := by
  cases w with
  | strings values =>
    have hnil : values = [] := by
      by_contra hne
      simp [PropertyWrite.bytes, hne] at hb
    simp [PropertyWrite.apply, ofPropertyWriteStrings, hnil, stringListBytes]
  | _ => simp [PropertyWrite.bytes] at hb

/-- The first property of the name is gone, the others of it stay. -/
theorem filter_ofDeleteProperty_self : (ofDeleteProperty properties name).filter (·.name = name) =
    (properties.filter (·.name = name)).tail := by
  induction properties with
  | nil => rfl
  | cons p ps ih =>
    rw [ofDeleteProperty] at ih ⊢
    by_cases hp : p.name = name
    · rw [List.eraseP_cons_of_pos (by simpa using hp), List.filter_cons_of_pos (by simpa using hp), List.tail_cons]
    · rw [List.eraseP_cons_of_neg (by simpa using hp), List.filter_cons_of_neg (by simpa using hp),
        List.filter_cons_of_neg (by simpa using hp), ih]

theorem filter_written {q : Property → Bool} (hq : ∀ p, q p = true → p.name ≠ name) (b : Option Bytes) :
    (written properties name b).filter q = properties.filter q := by
  have hnew : (b.map (Property.mk name)).toList.filter q = [] := by
    rw [List.filter_eq_nil_iff]
    intro p hp hqp
    cases b with
    | none => cases hp
    | some v => exact hq p hqp (by simp at hp; rw [hp])
  rw [written, List.filter_append, hnew, List.append_nil]
  induction properties with
  | nil => rfl
  | cons p ps ih =>
    rw [ofDeleteProperty] at ih ⊢
    by_cases hp : p.name = name
    · have hnot : ¬ q p = true := fun h => hq p h hp
      rw [List.eraseP_cons_of_pos (by simpa using hp), List.filter_cons_of_neg hnot]
    · rw [List.eraseP_cons_of_neg (by simpa using hp), List.filter_cons, List.filter_cons, ih]

/-- Behind a write the second property of the name is the first, or else what
was written is. -/
theorem find?_written (b : Option Bytes) : ((written properties name b).find? (·.name = name)).map (·.value) =
    match (properties.filter (·.name = name))[1]? with
    | some second => some second.value
    | none => b := by
  have hnew : (b.map (Property.mk name)).toList.filter (·.name = name) = (b.map (Property.mk name)).toList := by
    cases b <;> simp
  rw [← List.head?_filter, written, List.filter_append, filter_ofDeleteProperty_self, hnew]
  cases properties.filter (·.name = name) with
  | nil => cases b <;> rfl
  | cons p ps =>
    cases ps with
    | nil => cases b <;> rfl
    | cons q qs => rfl

theorem find?_written_other {other : CString} (hne : other ≠ name) (b : Option Bytes) :
    (written properties name b).find? (·.name = other) = properties.find? (·.name = other) := by
  rw [← List.head?_filter, ← List.head?_filter, filter_written]
  intro p hp
  rw [of_decide_eq_true hp]
  exact hne

theorem writeAll_concat (writes : List (CString × PropertyWrite)) :
    writeAll properties (writes ++ [(name, w)]) =
      (writeAll properties writes).bind fun properties => (w.apply properties name).map Prod.fst := by
  rw [writeAll, List.foldlM_append]
  simp [writeAll]

theorem lastWritten_concat (n : CString) (writes : List (CString × PropertyWrite)) :
    lastWritten n (writes ++ [(name, w)]) = if name = n ∧ w.bytes.isSome then some w else lastWritten n writes := by
  rw [lastWritten, List.filter_append]
  by_cases h : name = n ∧ w.bytes.isSome
  · rw [if_pos h, List.filter_cons_of_pos (by simpa using h)]
    simp
  · rw [if_neg h, List.filter_cons_of_neg (by simpa using h)]
    simp [lastWritten]

end

section
variable {np : DeviceNode} {properties : List Property} {writes : List (CString × PropertyWrite)}

@[simp] theorem DeviceNode.withProperties_properties (np : DeviceNode) (properties : List Property) :
    (np.withProperties properties).properties = properties := by
  cases np
  rfl

/-- `LikeMap` of a list of properties, with what an `int` has to hold. -/
structure Mapped (np : DeviceNode) (writes : List (CString × PropertyWrite)) (properties : List Property) : Prop where
  last : ∀ name w, lastWritten name writes = some w →
    w.bytes = some ((properties.find? (·.name = name)).map (·.value)) ∧ ∀ b ∈ w.bytes, ∀ v ∈ b, v.length < 2 ^ 31
  others : properties.filter (fun p => lastWritten p.name writes = none) =
    np.properties.filter fun p => lastWritten p.name writes = none

theorem Mapped.likeMap (h : Mapped np writes properties) : LikeMap np writes (np.withProperties properties) where
  written name w hw := by
    obtain ⟨hbytes, hsize⟩ := h.last name w hw
    have hget : ofGetProperty (np.withProperties properties) name =
        (properties.find? (·.name = name)).map (·.value) := by
      rw [ofGetProperty, ofFindProperty, DeviceNode.withProperties_properties]
    rw [← hget] at hbytes
    exact ⟨hbytes, PropertyWrite.readBack hbytes fun v hv => hsize _ hbytes v hv⟩
  others := by
    rw [DeviceNode.withProperties_properties]
    exact h.others

theorem Mapped.write (h : Mapped np writes properties) {name : CString} {w : PropertyWrite}
    (hfits : StepFits properties name w) :
    ∃ properties', (w.apply properties name).map Prod.fst = some properties' ∧
      Mapped np (writes ++ [(name, w)]) properties' := by
  cases hb : w.bytes with
  | none =>
    refine ⟨properties, by rw [PropertyWrite.apply_refused hb, Option.map_some], ?_⟩
    have hlast : ∀ n, lastWritten n (writes ++ [(name, w)]) = lastWritten n writes := by
      intro n
      rw [lastWritten_concat, if_neg (by simp [hb])]
    exact ⟨fun n w' hw' => h.last n w' (hlast n ▸ hw'), by simp only [hlast]; exact h.others⟩
  | some b =>
    refine ⟨written properties name b, by rw [PropertyWrite.apply_fits hfits hb, Option.map_some], ?_⟩
    have hlast : ∀ n, lastWritten n (writes ++ [(name, w)]) = if name = n then some w else lastWritten n writes := by
      intro n
      rw [lastWritten_concat]
      simp [hb]
    refine ⟨fun n w' hw' => ?_, ?_⟩
    · rw [hlast] at hw'
      split at hw'
      · next hn =>
        subst hn
        obtain rfl := Option.some.inj hw'
        refine ⟨?_, fun b' hb' v hv => (hfits b' hb').1 v hv⟩
        have hsecond := (hfits b hb).2
        rw [hb, find?_written]
        cases hq : (properties.filter (·.name = name))[1]? with
        | none => rfl
        | some q => rw [hsecond q hq]
      · next hn =>
        obtain ⟨hbytes, hsize⟩ := h.last n w' hw'
        rw [find?_written_other (Ne.symm hn)]
        exact ⟨hbytes, hsize⟩
    · -- Of the properties that were not written before, those of another name are left.
      have hsplit : ∀ ps : List Property, ps.filter (fun p => lastWritten p.name (writes ++ [(name, w)]) = none) =
          (ps.filter fun p => lastWritten p.name writes = none).filter fun p => p.name ≠ name := by
        intro ps
        rw [List.filter_filter]
        refine List.filter_congr fun p _ => ?_
        rw [hlast]
        by_cases hp : name = p.name
        · simp [hp]
        · simp [hp, Ne.symm hp]
      rw [filter_written, hsplit, hsplit, h.others]
      intro p hp hname
      rw [hlast, if_pos hname.symm] at hp
      cases of_decide_eq_true hp

theorem mem_written {name : CString} {b : Option Bytes} {p : Property} (h : p ∈ written properties name b) :
    p ∈ properties ∨ p.value ∈ b := by
  rcases List.mem_append.1 h with h | h
  · exact .inl (List.mem_of_mem_eraseP h)
  · cases b with
    | none => cases h
    | some v =>
      rw [Option.map_some, Option.toList_some, List.mem_singleton] at h
      exact .inr (by rw [h]; rfl)

theorem writeAll_lengths (hlen : ∀ p ∈ np.properties, p.value.length < 2 ^ 31) {properties : List Property}
    (h : writeAll np.properties writes = some properties) : ∀ p ∈ properties, p.value.length < 2 ^ 31 := by
  induction writes using List.reverseRecOn generalizing properties with
  | nil =>
    cases h
    exact hlen
  | append_singleton done nw ih =>
    obtain ⟨name, w⟩ := nw
    rw [writeAll_concat, Option.bind_eq_some_iff] at h
    obtain ⟨before, hbefore, hwrite⟩ := h
    obtain ⟨r, hr, rfl⟩ := Option.map_eq_some_iff.1 hwrite
    cases hb : w.bytes with
    | none =>
      rw [PropertyWrite.apply_refused hb, Option.some.injEq] at hr
      exact hr ▸ ih hbefore
    | some b =>
      obtain ⟨b', hr', hlt⟩ := PropertyWrite.apply_written hb hr
      intro p hp
      rw [hr'] at hp
      rcases mem_written hp with hp | hp
      · exact ih hbefore p hp
      · exact hlt _ hp

/-- **When properties behave like a map**: if no write finds its name twice (or
what it writes behind the first of them), every name has what was written to it
last, and reads back as that, behind all of the writes; and with lengths that an
`int` holds it is so only then. -/
theorem writes_like_map_iff (np : DeviceNode) (writes : List (CString × PropertyWrite)) :
    (WritesFit np writes → ∀ done, done <+: writes → ∃ properties, writeAll np.properties done = some properties ∧
      LikeMap np done (np.withProperties properties)) ∧
    ((∀ p ∈ np.properties, p.value.length < 2 ^ 31) →
      (∀ done, done <+: writes → ∃ properties, writeAll np.properties done = some properties ∧
        LikeMap np done (np.withProperties properties)) → WritesFit np writes) := by
  constructor
  · intro hfits
    have key : ∀ done, done <+: writes → ∃ properties, writeAll np.properties done = some properties ∧
        Mapped np done properties := by
      intro done
      induction done using List.reverseRecOn with
      | nil => exact fun _ => ⟨np.properties, rfl, fun name w hw => (by cases hw), rfl⟩
      | append_singleton done nw ih =>
        intro hprefix
        obtain ⟨name, w⟩ := nw
        obtain ⟨properties, hproperties, hmapped⟩ := ih ((List.prefix_append ..).trans hprefix)
        obtain ⟨rest, hrest⟩ := hprefix
        rw [List.append_assoc, List.singleton_append] at hrest
        obtain ⟨properties', hwrite, hmapped'⟩ :=
          hmapped.write (hfits done name w rest hrest.symm properties hproperties)
        exact ⟨properties', by rw [writeAll_concat, hproperties, Option.bind_some, hwrite], hmapped'⟩
    intro done hprefix
    obtain ⟨properties, hproperties, hmapped⟩ := key done hprefix
    exact ⟨properties, hproperties, hmapped.likeMap⟩
  · intro hlen hall done name w rest heq properties hproperties b hb
    obtain ⟨properties', hproperties', hlike⟩ := hall (done ++ [(name, w)]) ⟨rest, by rw [heq]; simp⟩
    rw [writeAll_concat, hproperties, Option.bind_some] at hproperties'
    obtain ⟨r, hr, rfl⟩ := Option.map_eq_some_iff.1 hproperties'
    obtain ⟨b', hr', hlt⟩ := PropertyWrite.apply_written hb hr
    have hlast : lastWritten name (done ++ [(name, w)]) = some w := by
      rw [lastWritten_concat, if_pos ⟨rfl, by rw [Option.mem_def.1 hb]; rfl⟩]
    have hget := (hlike.written name w hlast).1
    rw [Option.mem_def.1 hb, Option.some.injEq, ofGetProperty, ofFindProperty, DeviceNode.withProperties_properties,
      hr', find?_written] at hget
    have hbefore := writeAll_lengths hlen hproperties
    cases hsecond : (properties.filter (·.name = name))[1]? with
    | none =>
      rw [hsecond] at hget
      subst hget
      exact ⟨hlt, fun q hq => by cases hq⟩
    | some second =>
      rw [hsecond] at hget
      subst hget
      refine ⟨fun v hv => ?_, fun q hq => by cases hq; rfl⟩
      cases hv
      exact hbefore second (List.mem_of_mem_filter (List.mem_of_getElem? hsecond))

end

/-- A root with two properties of one name: writing it brings up the second. -/
theorem writes_duplicate : ∃ np : DeviceNode,
    ofUnflattenDtb (smallBlob [1, 0, 3, 1, 0, 0x61000000, 3, 1, 0, 0x62000000, 2, 9] [120, 0]) = some (.ok np) ∧
      ¬ ∃ properties, writeAll np.properties [(cstr "x", .u8 [99])] = some properties ∧
        LikeMap np [(cstr "x", .u8 [99])] (np.withProperties properties) := by
  have hread : (ofUnflattenDtb (smallBlob [1, 0, 3, 1, 0, 0x61000000, 3, 1, 0, 0x62000000, 2, 9] [120, 0])).map
      (fun r => r.toOption.map (·.properties)) = some (some [⟨cstr "x", [97]⟩, ⟨cstr "x", [98]⟩]) := by
    decide +kernel
  obtain ⟨r, hr, hproperties⟩ := Option.map_eq_some_iff.1 hread
  cases r with
  | error e => cases hproperties
  | ok np =>
    refine ⟨np, hr, fun h => ?_⟩
    obtain ⟨properties, hwrite, hlike⟩ := h
    have hnp : np.properties = [⟨cstr "x", [97]⟩, ⟨cstr "x", [98]⟩] := Option.some.inj hproperties
    rw [hnp] at hwrite
    have hwritten : writeAll [⟨cstr "x", [97]⟩, ⟨cstr "x", [98]⟩] [(cstr "x", .u8 [99])] =
        some [⟨cstr "x", [98]⟩, ⟨cstr "x", [99]⟩] := by
      decide +kernel
    cases hwrite.symm.trans hwritten
    obtain ⟨hbytes, -⟩ := hlike.written (cstr "x") (.u8 [99]) rfl
    rw [ofGetProperty, ofFindProperty, DeviceNode.withProperties_properties] at hbytes
    exact absurd hbytes (by decide +kernel)

end DtUtils
