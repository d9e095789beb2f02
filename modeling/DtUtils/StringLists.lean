/-
The string list functions of `libdt.c`: counting, indexing and matching walk
a property's value string by string, with a `strlen` that only the string's
NUL stops (`string_lists_sound_iff`).
-/
import DtUtils.DeviceTree

namespace DtUtils
open Lib

/-- `strlen`; `none` is a read behind the end. -/
def strlen (p : Bytes) : Option Nat := if (0 : UInt8) ∈ p then some (p.takeWhile (· ≠ 0)).length else none

section
variable {β : Type} (found : Nat → CString → Option β) (done : Nat → β)

/-- The loop that the three functions share, from string `i` on: `found` is
asked about every string, `done` gives the result behind the last one. `fuel`
bounds its rounds. -/
def stringsLoop : Nat → Nat → Bytes → Option β
  | 0, i, _ => some (done i)
  | fuel + 1, i, p =>
    if p = [] then some (done i)
    else do
      let l ← strlen p
      match found i (CString.of p) with
      | some r => return r
      | none => stringsLoop fuel (i + 1) (p.drop (l + 1))

/-- The first of the strings that `found` takes, counted from `i`. -/
def firstFound : Nat → List CString → Option β
  | _, [] => none
  | i, s :: ss => (found i s).or (firstFound (i + 1) ss)

end

/-- `of_property_count_strings` -/
def ofPropertyCountStrings (np : DeviceNode) (propname : CString) : Option (Except Int Nat) :=
  match ofFindProperty np propname with
  | none => some (.error (-EINVAL))
  | some prop =>
    if (0 : UInt8) ∉ prop.value then some (.error (-EILSEQ))
    else stringsLoop (fun _ _ => none) .ok prop.value.length 0 prop.value

/-- `of_property_read_string_index` -/
def ofPropertyReadStringIndex (np : DeviceNode) (propname : CString) (index : Int) : Option (Except Int CString) :=
  match ofFindProperty np propname with
  | none => some (.error (-EINVAL))
  | some prop =>
    if (0 : UInt8) ∉ prop.value then some (.error (-EILSEQ))
    else stringsLoop (fun i s => if i = index then some (.ok s) else none) (fun _ => .error (-ENODATA))
      prop.value.length 0 prop.value

/-- `of_property_match_string`. Its test that the string ends inside the value
comes behind the `strlen` that has gone over it. -/
def ofPropertyMatchString (np : DeviceNode) (propname string : CString) : Option (Except Int Nat) :=
  match ofFindProperty np propname with
  | none => some (.error (-EINVAL))
  | some prop =>
    stringsLoop (fun i s => if string = s then some (.ok i) else none) (fun _ => .error (-ENODATA))
      prop.value.length 0 prop.value

/-! ## String lists -/

/-- Strings one after the other, each with its NUL. -/
def stringListBytes (ss : List CString) : Bytes := ss.flatMap fun s => s.1 ++ [0]

theorem CString.of_terminated (s : CString) (rest : Bytes) : CString.of (s.1 ++ 0 :: rest) = s := by
  apply Subtype.ext
  simp only [CString.of]
  rw [List.takeWhile_append_of_pos fun b hb => by simpa using ne_of_mem_of_not_mem hb s.2]
  simp

theorem strlen_terminated (s : CString) (rest : Bytes) : strlen (s.1 ++ 0 :: rest) = some s.1.length := by
  have h := congrArg (fun s : CString => s.1.length) (CString.of_terminated s rest)
  rw [strlen, if_pos (by simp)]
  exact congrArg some h

/-- Every value is some strings, and what is behind the last NUL. -/
theorem exists_strings (value : Bytes) : ∃ ss tail, value = stringListBytes ss ++ tail ∧ (0 : UInt8) ∉ tail := by
  induction value with
  | nil => exact ⟨[], [], rfl, by simp⟩
  | cons b bs ih =>
    obtain ⟨ss, tail, rfl, htail⟩ := ih
    by_cases hb : b = 0
    · subst hb
      exact ⟨.empty :: ss, tail, rfl, htail⟩
    · cases ss with
      | nil =>
        refine ⟨[], b :: tail, rfl, ?_⟩
        simp only [List.mem_cons, not_or]
        exact ⟨Ne.symm hb, htail⟩
      | cons s ss =>
        refine ⟨⟨b :: s.1, ?_⟩ :: ss, tail, rfl, htail⟩
        simp only [List.mem_cons, not_or]
        exact ⟨Ne.symm hb, s.2⟩

theorem zero_mem_strings {ss : List CString} {tail : Bytes} (htail : (0 : UInt8) ∉ tail) :
    (0 : UInt8) ∈ stringListBytes ss ++ tail ↔ ss ≠ [] := by
  cases ss with
  | nil => simpa [stringListBytes] using htail
  | cons s ss => simp [stringListBytes]

theorem stringListBytes_cons (s : CString) (ss : List CString) (tail : Bytes) :
    stringListBytes (s :: ss) ++ tail = s.1 ++ 0 :: (stringListBytes ss ++ tail) := by
  simp [stringListBytes, List.append_assoc]

/-- The loop finds what there is to be found among the strings; behind them it
leaves the value if anything is left of it. -/
theorem stringsLoop_eq {β : Type} {found : Nat → CString → Option β} {done : Nat → β} {tail : Bytes}
    (htail : (0 : UInt8) ∉ tail) : ∀ {ss : List CString} {fuel i : Nat},
    (stringListBytes ss ++ tail).length ≤ fuel → stringsLoop found done fuel i (stringListBytes ss ++ tail) =
      match firstFound found i ss with
      | some r => some r
      | none => if tail = [] then some (done (i + ss.length)) else none
  | [], 0, i, h => by
    have hnil : tail = [] := by simpa [stringListBytes] using h
    subst hnil
    simp [stringsLoop, firstFound]
  | [], fuel + 1, i, h => by
    simp only [stringListBytes, List.flatMap_nil, List.nil_append, stringsLoop, firstFound, List.length_nil,
      Nat.add_zero]
    by_cases hnil : tail = []
    · rw [if_pos hnil, if_pos hnil]
    · rw [if_neg hnil, if_neg hnil, strlen, if_neg htail]
      rfl
  | s :: ss, 0, i, h => by simp [stringListBytes] at h
  | s :: ss, fuel + 1, i, h => by
    rw [stringListBytes_cons] at h ⊢
    rw [stringsLoop, if_neg (by simp), strlen_terminated, CString.of_terminated, firstFound]
    simp only [Option.bind_eq_bind, Option.bind_some]
    cases found i s with
    | some r => rfl
    | none =>
      have hdrop : (s.1 ++ 0 :: (stringListBytes ss ++ tail)).drop (s.1.length + 1) = stringListBytes ss ++ tail := by
        rw [List.append_cons, List.drop_left' (by simp)]
      simp only [List.length_append, List.length_cons] at h
      have ih := @stringsLoop_eq _ found done _ htail ss fuel (i + 1) (by rw [List.length_append]; omega)
      rw [hdrop]
      simp only [Option.none_or, List.length_cons]
      rw [ih, show i + 1 + ss.length = i + (ss.length + 1) by omega]

theorem firstFound_none {β : Type} (i : Nat) (ss : List CString) :
    firstFound (β := β) (fun _ _ => none) i ss = none := by
  induction ss generalizing i with
  | nil => rfl
  | cons s ss ih => rw [firstFound, ih, Option.none_or]

theorem firstFound_index {index : Int} : ∀ {ss : List CString} {i : Nat},
    firstFound (fun i s => if (i : Int) = index then some (Except.ok (ε := Int) s) else none) i ss =
      if (i : Int) ≤ index then (ss[(index - i).toNat]?).map .ok else none
  | [], i => by simp [firstFound]
  | s :: ss, i => by
    rw [firstFound, firstFound_index]
    by_cases heq : (i : Int) = index
    · subst heq
      simp
    · rw [if_neg heq, Option.none_or]
      by_cases hle : (i : Int) ≤ index
      · have hsucc : (index - i).toNat = (index - (i + 1 : Nat)).toNat + 1 := by omega
        rw [if_pos (by omega), if_pos hle, hsucc, List.getElem?_cons_succ]
      · rw [if_neg (by omega), if_neg hle]

theorem firstFound_match {string : CString} : ∀ {ss : List CString} {i : Nat},
    firstFound (fun i s => if string = s then some (Except.ok (ε := Int) i) else none) i ss =
      (ss.findIdx? (· = string)).map fun k => .ok (i + k)
  | [], i => rfl
  | s :: ss, i => by
    rw [firstFound, firstFound_match, List.findIdx?_cons]
    by_cases heq : string = s
    · rw [if_pos heq, if_pos (by simp [heq])]
      rfl
    · rw [if_neg heq, if_neg (by simp [Ne.symm heq]), Option.none_or, Option.map_map]
      refine Option.map_congr fun k _ => ?_
      simp only [Function.comp_apply]
      congr 1
      omega

theorem stringListBytes_getLast? {ss : List CString} (h : ss ≠ []) : (stringListBytes ss).getLast? = some 0 := by
  obtain ⟨ss, s, rfl⟩ := (List.eq_nil_or_concat' ss).resolve_left h
  rw [stringListBytes, List.flatMap_append, List.flatMap_singleton, ← List.append_assoc, List.getLast?_concat]

/-- A value ends in a NUL exactly if nothing is behind its last string. -/
theorem getLast?_strings {ss : List CString} {tail : Bytes} (htail : (0 : UInt8) ∉ tail) :
    stringListBytes ss ++ tail = [] ∨ (stringListBytes ss ++ tail).getLast? = some 0 ↔ tail = [] := by
  constructor
  · intro h
    by_contra hne
    rcases h with h | h
    · exact hne (List.append_eq_nil_iff.1 h).2
    · rw [List.getLast?_append_of_ne_nil _ hne] at h
      exact htail (List.mem_of_getLast? h)
  · intro h
    subst h
    rw [List.append_nil]
    by_cases hss : ss = []
    · exact .inl (by rw [hss]; rfl)
    · exact .inr (stringListBytes_getLast? hss)

/-! ## The three functions -/

/-- The three functions treat the property as the list `ss`. -/
structure StringsRead (np : DeviceNode) (propname : CString) (ss : List CString) : Prop where
  count : ofPropertyCountStrings np propname = some (.ok ss.length)
  index : ∀ i : Int, ofPropertyReadStringIndex np propname i = some (match ss[i.toNat]? with
    | some s => if 0 ≤ i then .ok s else .error (-ENODATA)
    | none => .error (-ENODATA))
  matched : ∀ s, ofPropertyMatchString np propname s = some (match ss.findIdx? (· = s) with
    | some i => .ok i
    | none => .error (-ENODATA))

/-- The three functions refuse the property. -/
structure Refused (np : DeviceNode) (propname : CString) : Prop where
  count : ∃ e, e < 0 ∧ ofPropertyCountStrings np propname = some (.error e)
  index : ∀ i, ∃ e, e < 0 ∧ ofPropertyReadStringIndex np propname i = some (.error e)
  matched : ∀ s, ∃ e, e < 0 ∧ ofPropertyMatchString np propname s = some (.error e)

/-- A property with the bytes of one or more strings is read as these; any
other is refused. -/
def StringListSound (np : DeviceNode) (propname : CString) : Prop :=
  (∀ p ss, ofFindProperty np propname = some p → ss ≠ [] → p.value = stringListBytes ss → StringsRead np propname ss) ∧
    ((∀ p ss, ofFindProperty np propname = some p → ss ≠ [] → p.value ≠ stringListBytes ss) → Refused np propname)

section
variable {np : DeviceNode} {propname : CString} {p : Property} {ss : List CString}

theorem stringsRead (hp : ofFindProperty np propname = some p) (hss : ss ≠ []) (hv : p.value = stringListBytes ss) :
    StringsRead np propname ss := by
  have hzero : (0 : UInt8) ∈ p.value := by
    rw [hv, ← List.append_nil (stringListBytes ss), zero_mem_strings (by simp)]
    exact hss
  have hloop := fun (β : Type) (found : Nat → CString → Option β) (done : Nat → β) =>
    @stringsLoop_eq β found done [] (by simp) ss _ 0 (le_refl _)
  simp only [List.append_nil, if_true, Nat.zero_add, ← hv] at hloop
  refine ⟨?_, fun i => ?_, fun s => ?_⟩
  · simp only [ofPropertyCountStrings, hp]
    rw [if_neg (by simpa using hzero), hloop, firstFound_none]
  · simp only [ofPropertyReadStringIndex, hp]
    rw [if_neg (by simpa using hzero), hloop, firstFound_index]
    simp only [Nat.cast_zero, sub_zero]
    by_cases h0 : 0 ≤ i
    · simp only [if_pos h0]
      cases ss[i.toNat]? <;> rfl
    · simp only [if_neg h0]
      cases ss[i.toNat]? <;> rfl
  · simp only [ofPropertyMatchString, hp]
    rw [hloop, firstFound_match]
    cases ss.findIdx? (· = s) with
    | none => rfl
    | some k => simp only [Option.map_some, Nat.zero_add]

theorem refused_of_missing (hp : ofFindProperty np propname = none) : Refused np propname := by
  refine ⟨⟨-EINVAL, by decide, ?_⟩, fun i => ⟨-EINVAL, by decide, ?_⟩, fun s => ⟨-EINVAL, by decide, ?_⟩⟩
  · simp only [ofPropertyCountStrings, hp]
  · simp only [ofPropertyReadStringIndex, hp]
  · simp only [ofPropertyMatchString, hp]

theorem refused_of_nil (hp : ofFindProperty np propname = some p) (hv : p.value = []) : Refused np propname := by
  refine ⟨⟨-EILSEQ, by decide, ?_⟩, fun i => ⟨-EILSEQ, by decide, ?_⟩, fun s => ⟨-ENODATA, by decide, ?_⟩⟩
  · simp only [ofPropertyCountStrings, hp, hv]
    rfl
  · simp only [ofPropertyReadStringIndex, hp, hv]
    rfl
  · simp only [ofPropertyMatchString, hp, hv]
    rfl

/-- A value with something behind its last NUL is not refused: one of the
functions reads behind its end. -/
theorem not_refused {tail : Bytes} (hp : ofFindProperty np propname = some p) (htail : (0 : UInt8) ∉ tail)
    (hne : tail ≠ []) (hv : p.value = stringListBytes ss ++ tail) : ¬ Refused np propname := by
  intro h
  have hloop := fun (β : Type) (found : Nat → CString → Option β) (done : Nat → β) =>
    @stringsLoop_eq β found done tail htail ss _ 0 (le_refl _)
  simp only [if_neg hne, ← hv] at hloop
  by_cases hss : ss = []
  · -- There is no NUL at all, which only the matching does not see.
    obtain ⟨e, -, he⟩ := h.matched .empty
    simp only [ofPropertyMatchString, hp, hloop, hss, firstFound, reduceCtorEq] at he
  · obtain ⟨e, -, he⟩ := h.count
    have hzero : (0 : UInt8) ∈ p.value := by
      rw [hv, zero_mem_strings htail]
      exact hss
    simp only [ofPropertyCountStrings, hp] at he
    rw [if_neg (by simpa using hzero), hloop, firstFound_none] at he
    cases he

/-- **When the string list functions agree**: they stay inside a value, and
take it for the strings it is made of, exactly if it is empty or ends in a NUL. -/
theorem string_lists_sound_iff (np : DeviceNode) (propname : CString) : StringListSound np propname ↔
    ∀ p, ofFindProperty np propname = some p → p.value = [] ∨ p.value.getLast? = some 0 := by
  cases hp : ofFindProperty np propname with
  | none =>
    refine iff_of_true ⟨fun p ss h => ?_, fun _ => refused_of_missing hp⟩ fun p h => by cases h
    rw [hp] at h
    cases h
  | some p =>
    obtain ⟨ss, tail, hv, htail⟩ := exists_strings p.value
    simp only [Option.some.injEq, forall_eq', hv, getLast?_strings htail]
    constructor
    · intro h
      by_contra hne
      refine not_refused hp htail hne hv (h.2 fun q ss' hq hss' hlist => hne ?_)
      rw [hp, Option.some.injEq] at hq
      rw [← hq, hv] at hlist
      exact (getLast?_strings htail).1 (.inr (hlist ▸ stringListBytes_getLast? hss'))
    · intro hnil
      rw [hnil, List.append_nil] at hv
      refine ⟨fun q ss' hq hss' hlist => stringsRead hq hss' hlist, fun hno => ?_⟩
      by_cases hss : ss = []
      · exact refused_of_nil hp (by rw [hv, hss]; rfl)
      · exact absurd hv (hno p ss hp hss)

end

/-- The names of an enumeration, the last of them without its NUL: counting
them, and looking for one that is not there, reads behind the value. -/
theorem string_lists_unterminated : ¬ StringListSound (.node .empty 0 [⟨cstr "names", [97, 0, 98]⟩] []) (cstr "names") ∧
    ofPropertyCountStrings (.node .empty 0 [⟨cstr "names", [97, 0, 98]⟩] []) (cstr "names") = none := by
  have hcount : ofPropertyCountStrings (.node .empty 0 [⟨cstr "names", [97, 0, 98]⟩] []) (cstr "names") = none := by
    decide
  refine ⟨fun h => ?_, hcount⟩
  have hrefused := h.2 fun p ss hp hss hv => by
    rw [show ofFindProperty _ _ = some ⟨cstr "names", [97, 0, 98]⟩ by decide, Option.some.injEq] at hp
    have hlast := stringListBytes_getLast? hss
    rw [← hv, ← hp] at hlast
    exact absurd hlast (by decide)
  obtain ⟨e, -, he⟩ := hrefused.count
  rw [hcount] at he
  cases he

/-! ## The names of an enumeration -/

theorem splitStrings_terminated (s : CString) (rest : Bytes) : ∀ acc : Bytes, (0 : UInt8) ∉ acc →
    splitStrings acc (s.1 ++ 0 :: rest) = (CString.of (acc ++ s.1) :: ·) <$> splitStrings [] rest := by
  obtain ⟨bs, hs⟩ := s
  induction bs with
  | nil =>
    intro acc _
    rw [List.nil_append, List.append_nil, splitStrings, if_pos rfl]
  | cons b bs ih =>
    intro acc hacc
    rw [List.mem_cons, not_or] at hs
    have hb : b ≠ 0 := fun h => hs.1 h.symm
    rw [List.cons_append, splitStrings, if_neg hb, ih hs.2 (acc ++ [b]) (by simp [hacc, hs.1]), List.append_assoc]
    rfl

theorem splitStrings_eq_some {value : Bytes} {ss : List CString} (h : splitStrings [] value = some ss) :
    value = stringListBytes ss := by
  obtain ⟨ss', tail, rfl, htail⟩ := exists_strings value
  induction ss' generalizing ss with
  | nil =>
    cases tail with
    | nil =>
      cases h
      rfl
    | cons b bs =>
      -- Without a NUL the bytes pile up in the accumulator.
      exfalso
      have hnone : ∀ (bs acc : Bytes), acc ≠ [] → (0 : UInt8) ∉ bs → splitStrings acc bs = none := by
        intro bs
        induction bs with
        | nil => exact fun acc hacc _ => if_neg hacc
        | cons b bs ih =>
          intro acc _ hmem
          rw [List.mem_cons, not_or] at hmem
          rw [splitStrings, if_neg fun h => hmem.1 h.symm]
          exact ih _ (by simp) hmem.2
      rw [List.mem_cons, not_or] at htail
      simp only [stringListBytes, List.flatMap_nil, List.nil_append] at h
      rw [splitStrings, if_neg fun h => htail.1 h.symm, hnone bs _ (by simp) htail.2] at h
      cases h
  | cons s ss' ih =>
    rw [stringListBytes_cons, splitStrings_terminated _ _ [] (by simp)] at h
    simp only [Option.map_eq_map, Option.map_eq_some_iff] at h
    obtain ⟨ss₁, hrest, rfl⟩ := h
    have hs : CString.of ([] ++ s.1) = s := by
      apply Subtype.ext
      simp only [CString.of, List.nil_append]
      exact List.takeWhile_eq_self_iff.2 fun b hb => by simpa using ne_of_mem_of_not_mem hb s.2
    rw [stringListBytes_cons, ih hrest, hs]
    simp [stringListBytes]

end DtUtils
