/-
The loops over the values of a property: `of_property_for_each_u32` and
`of_property_for_each_string` go from one value to the next with
`of_prop_next_u32` and `of_prop_next_string`, which look for the end behind a
value only. `none` results are reads behind the property's value.

Both loops go over exactly the values that lie one behind the other, and they
leave a property that is empty or ends inside one of them
(`property_loops_iff`).
-/
import DtUtils.FdtTokens
import DtUtils.StringLists

namespace DtUtils
open Lib

/-! ## The functions -/

/-- `of_prop_next_u32`: where the next cell is, and what it is. -/
def ofPropNextU32 (prop : Option Property) (cur : Option Nat) : Option (Option (Nat × UInt32)) :=
  match prop with
  | none => some none
  | some prop =>
    match cur with
    | none => (be32At prop.value 0).map fun u => some (0, .ofNat u)
    | some cur =>
      if prop.value.length ≤ cur + 4 then some none
      else (be32At prop.value (cur + 4)).map fun u => some (cur + 4, .ofNat u)

/-- `of_prop_next_string` -/
def ofPropNextString (prop : Option Property) (cur : Option Nat) : Option (Option Nat) :=
  match prop with
  | none => some none
  | some prop =>
    match cur with
    | none => some (some 0)
    | some cur => do
      let curv := cur + ((← strlen (prop.value.drop cur)) + 1)
      return if prop.value.length ≤ curv then none else some curv

section
variable {α : Type}

/-- A loop from one value to the next, with what its body sees. -/
def forEachValue (next : Option Nat → Option (Option (Nat × α))) : Nat → Option Nat → Option (List α)
  | 0, _ => none
  | fuel + 1, cur => do
    match ← next cur with
    | none => return []
    | some (cur, x) => (x :: ·) <$> forEachValue next fuel (some cur)

end

/-- A value has at least one byte. -/
def valuesFuel (prop : Option Property) : Nat := prop.elim 0 (·.value.length) + 1

/-- `of_property_for_each_u32` -/
def ofPropertyForEachU32 (np : DeviceNode) (propname : CString) : Option (List UInt32) :=
  let prop := ofFindProperty np propname
  forEachValue (ofPropNextU32 prop) (valuesFuel prop) none

/-- The next string, and what the body of a loop reads there. -/
def nextStringRead (prop : Option Property) (cur : Option Nat) : Option (Option (Nat × CString)) := do
  match ← ofPropNextString prop cur with
  | none => return none
  | some s => return some (s, ← stringAt (prop.elim [] (·.value)) s)

/-- `of_property_for_each_string` -/
def ofPropertyForEachString (np : DeviceNode) (propname : CString) : Option (List CString) :=
  let prop := ofFindProperty np propname
  forEachValue (nextStringRead prop) (valuesFuel prop) none

/-! ## Walks from value to value -/

section
variable {α : Type} {next : Option Nat → Option (Option (Nat × α))} {readAt : Nat → Option α} {enc : α → Bytes}
  {value : Bytes}

/-- The first value is read without looking for the end, each further one if
there is anything behind the one before. -/
structure Walks (next : Option Nat → Option (Option (Nat × α))) (readAt : Nat → Option α) (enc : α → Bytes)
    (value : Bytes) : Prop where
  nonempty : ∀ x, enc x ≠ []
  reads : ∀ p x, readAt p = some x ↔ enc x <+: value.drop p
  start : next none = (readAt 0).map fun x => some (0, x)
  step : ∀ p x, readAt p = some x → next (some p) =
    if value.length ≤ p + (enc x).length then some none
    else (readAt (p + (enc x).length)).map fun y => some (p + (enc x).length, y)

theorem forEachValue_read {fuel p : Nat} {cur : Option Nat} (h : next cur = (readAt p).map fun x => some (p, x)) :
    forEachValue next (fuel + 1) cur =
      (readAt p).bind fun x => (forEachValue next fuel (some p)).map (x :: ·) := by
  rw [forEachValue, h]
  cases readAt p <;> rfl

theorem Walks.read_iff (h : Walks next readAt enc value) {p : Nat} {rest : Option (List α)}
    (hrest : ∀ x, readAt p = some x → ∀ ys, rest = some ys ↔ value.drop (p + (enc x).length) = ys.flatMap enc)
    (xs : List α) : (readAt p).bind (fun x => rest.map (x :: ·)) = some xs ↔
      xs ≠ [] ∧ value.drop p = xs.flatMap enc := by
  cases hread : readAt p with
  | none =>
    refine iff_of_false (by simp) fun hholds => ?_
    obtain ⟨hne, hxs⟩ := hholds
    obtain ⟨x, ys, rfl⟩ := List.exists_cons_of_ne_nil hne
    rw [List.flatMap_cons] at hxs
    have hx := (h.reads p x).2 ⟨_, hxs.symm⟩
    rw [hread] at hx
    cases hx
  | some x =>
    obtain ⟨tail, htail⟩ := (h.reads p x).1 hread
    have hdrop : value.drop (p + (enc x).length) = tail := by
      rw [← List.drop_drop, ← htail, List.drop_left]
    have hys := hrest x hread
    rw [hdrop] at hys
    rw [Option.bind_some, Option.map_eq_some_iff, ← htail]
    constructor
    · rintro ⟨ys, hloop, rfl⟩
      exact ⟨List.cons_ne_nil x ys, by rw [List.flatMap_cons, (hys ys).1 hloop]⟩
    · intro hholds
      obtain ⟨hne, hxs⟩ := hholds
      obtain ⟨y, ys, rfl⟩ := List.exists_cons_of_ne_nil hne
      rw [List.flatMap_cons] at hxs
      have hy := (h.reads p y).2 ⟨ys.flatMap enc, by rw [← htail, hxs]⟩
      cases hread.symm.trans hy
      exact ⟨ys, (hys ys).2 (List.append_cancel_left hxs), rfl⟩

/-- Behind a value, the loop goes over what is left. -/
theorem Walks.behind_iff (h : Walks next readAt enc value) : ∀ {fuel p : Nat} {x : α} (xs : List α),
    value.length - (p + (enc x).length) < fuel → readAt p = some x →
    (forEachValue next fuel (some p) = some xs ↔ value.drop (p + (enc x).length) = xs.flatMap enc)
  | 0, _, _, _, hfuel, _ => absurd hfuel (Nat.not_lt_zero _)
  | fuel + 1, p, x, xs, hfuel, hx => by
    have hstep := h.step p x hx
    by_cases hend : value.length ≤ p + (enc x).length
    · rw [if_pos hend] at hstep
      rw [forEachValue, hstep, List.drop_eq_nil_of_le hend]
      constructor
      · intro heq
        cases heq
        rfl
      · intro hnil
        cases xs with
        | nil => rfl
        | cons y ys =>
          rw [List.flatMap_cons] at hnil
          exact absurd (List.append_eq_nil_iff.1 hnil.symm).1 (h.nonempty y)
    · rw [if_neg hend] at hstep
      rw [forEachValue_read hstep, h.read_iff (fun y hy ys => ?_) xs, and_iff_right_iff_imp]
      · intro hxs hnil
        rw [hnil, List.flatMap_nil, List.drop_eq_nil_iff] at hxs
        exact hend hxs
      · have hpos := List.length_pos_iff.2 (h.nonempty y)
        exact h.behind_iff ys (by omega) hy

/-- The loop goes over the values, of which there must be one. -/
theorem Walks.iff (h : Walks next readAt enc value) (xs : List α) :
    forEachValue next (value.length + 1) none = some xs ↔ xs ≠ [] ∧ value = xs.flatMap enc := by
  rw [forEachValue_read h.start, h.read_iff (fun x hx ys => ?_) xs, List.drop_zero]
  have hpos := List.length_pos_iff.2 (h.nonempty x)
  obtain ⟨tail, htail⟩ := (h.reads 0 x).1 hx
  have hlen := congrArg List.length htail
  rw [List.length_append, List.drop_zero] at hlen
  exact h.behind_iff ys (by omega) hx

end

/-! ## The two loops -/

theorem beBytes_beNat (bs : Bytes) : beBytes bs.length (beNat bs) = bs := by
  rw [beBytes, beNat, ← List.length_reverse, leBytes_leNat, List.reverse_reverse]

theorem be32At_map_iff {value : Bytes} {p : Nat} {u : UInt32} :
    (be32At value p).map UInt32.ofNat = some u ↔ beBytes 4 u.toNat <+: value.drop p := by
  rw [List.prefix_iff_eq_take, beBytes_length, ← slice, be32At]
  by_cases hle : p + 4 ≤ value.length
  · have hlen : (slice p 4 value).length = 4 := slice_length hle
    have hlt := beNat_lt (slice p 4 value)
    have hback := beBytes_beNat (slice p 4 value)
    rw [hlen] at hlt hback
    rw [if_pos hle, Option.map_some, Option.some.injEq]
    constructor
    · intro h
      rw [← h, UInt32.toNat_ofNat', Nat.mod_eq_of_lt (show beNat (slice p 4 value) < 2 ^ 32 from hlt), hback]
    · intro h
      rw [← h, beNat_beBytes_of_lt u.toNat_lt, UInt32.ofNat_toNat]
  · rw [if_neg hle]
    refine iff_of_false (by simp) fun h => ?_
    have hlen := congrArg List.length h
    rw [beBytes_length, slice, List.length_take, List.length_drop] at hlen
    omega

theorem stringAt_iff {value : Bytes} {p : Nat} {s : CString} :
    stringAt value p = some s ↔ s.1 ++ [0] <+: value.drop p := by
  constructor
  · intro h
    obtain ⟨rfl, hlt⟩ := stringAt_eq h
    obtain ⟨ss, tail, hss, htail⟩ := exists_strings (value.drop p)
    cases ss with
    | nil =>
      rw [stringListBytes, List.flatMap_nil, List.nil_append] at hss
      have hall : (CString.of tail).1 = tail :=
        List.takeWhile_eq_self_iff.2 fun c hc => by simpa using ne_of_mem_of_not_mem hc htail
      have hlen := congrArg List.length hss
      rw [List.length_drop] at hlen
      rw [hss, hall] at hlt
      omega
    | cons s ss =>
      rw [hss, stringListBytes_cons, CString.of_terminated]
      exact ⟨stringListBytes ss ++ tail, by rw [List.append_assoc, List.singleton_append]⟩
  · intro h
    obtain ⟨rest, hrest⟩ := h
    rw [List.append_assoc, List.singleton_append] at hrest
    have hlen := congrArg List.length hrest
    rw [List.length_append, List.length_cons, List.length_drop] at hlen
    rw [stringAt, ← hrest, CString.of_terminated]
    exact if_pos (by omega)

theorem u32_walks (prop : Property) : Walks (ofPropNextU32 (some prop))
    (fun p => (be32At prop.value p).map UInt32.ofNat) (fun u : UInt32 => beBytes 4 u.toNat) prop.value where
  nonempty u := List.ne_nil_of_length_pos (by rw [beBytes_length]; decide)
  reads p u := be32At_map_iff
  start := by
    rw [Option.map_map]
    rfl
  step p u _ := by
    rw [beBytes_length, Option.map_map]
    rfl

theorem string_walks (prop : Property) : Walks (nextStringRead (some prop)) (stringAt prop.value)
    (fun s : CString => s.1 ++ [0]) prop.value where
  nonempty s := by simp
  reads p s := stringAt_iff
  start := by
    change (stringAt prop.value 0).bind (fun s => some (some (0, s))) = _
    cases stringAt prop.value 0 <;> rfl
  step p s hs := by
    obtain ⟨rest, hrest⟩ := stringAt_iff.1 hs
    rw [List.append_assoc, List.singleton_append] at hrest
    rw [nextStringRead, ofPropNextString, ← hrest, strlen_terminated, List.length_append, List.length_singleton]
    simp only [Option.bind_eq_bind, Option.bind_some]
    by_cases hend : prop.value.length ≤ p + (s.1.length + 1)
    · rw [if_pos hend, if_pos hend]
      rfl
    · rw [if_neg hend, if_neg hend]
      cases hnext : stringAt prop.value (p + (s.1.length + 1)) <;> simp [hnext]

/-- The values of a property that lie one behind the other. A property that
there is has one at least. -/
def Holding {α : Type} (bytes : List α → Bytes) (xs : List α) : Option Property → Prop
  | none => xs = []
  | some prop => xs ≠ [] ∧ prop.value = bytes xs

/-- **A loop over a property goes over what it holds**: over cells or strings
exactly if the value is these, one behind the other, and at least one. -/
theorem property_loops_iff (np : DeviceNode) (propname : CString) :
    (∀ us, ofPropertyForEachU32 np propname = some us ↔
      Holding (fun us : List UInt32 => us.flatMap fun u => beBytes 4 u.toNat) us (ofFindProperty np propname)) ∧
    ∀ ss, ofPropertyForEachString np propname = some ss ↔
      Holding stringListBytes ss (ofFindProperty np propname) := by
  constructor
  · intro us
    rw [ofPropertyForEachU32]
    cases ofFindProperty np propname with
    | none => exact ⟨fun h => (Option.some.inj h).symm, fun h => congrArg some (Eq.symm h)⟩
    | some prop => exact (u32_walks prop).iff us
  · intro ss
    rw [ofPropertyForEachString]
    cases ofFindProperty np propname with
    | none => exact ⟨fun h => (Option.some.inj h).symm, fun h => congrArg some (Eq.symm h)⟩
    | some prop => exact (string_walks prop).iff ss

-- The second string does not end in the property.
example : ofPropertyForEachString (.node .empty 0 [⟨cstr "names", [97, 0, 98]⟩] []) (cstr "names") = none := by decide

end DtUtils
