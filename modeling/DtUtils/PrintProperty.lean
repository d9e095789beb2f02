/-
`of_print_property` of `libdt.c`, with which a tree is dumped: a value is
printed as strings, as cells or as bytes. The text tells the value, except that
a quote inside a string is printed like one that ends it
(`print_property_unambiguous`).
-/
import DtUtils.StringLists
import DtUtils.Setters
import Mathlib.Data.Nat.Digits.Defs

namespace DtUtils
open Lib

/-- `isprint` -/
def isPrint (c : UInt8) : Bool := 32 ≤ c ∧ c ≤ 126

/-- The loop of `is_printable_string` from one of the characters on. `none` is
a read behind the data. -/
def isPrintableLoop : Bytes → Option Bool
  | [] => none
  | c :: s =>
    if c = 0 then
      match s with
      | [] => some true
      | c' :: s => if c' = 0 then some false else isPrintableLoop (c' :: s)
    else if isPrint c then isPrintableLoop s
    -- Not printable, and not done yet.
    else some false

/-- `is_printable_string` -/
def isPrintableString (data : Bytes) : Option Bool :=
  if data = [] then some false
  else if data.getLast? ≠ some 0 then some false
  else isPrintableLoop data

/-- `", "` with its quotes -/
def stringSeparator : Bytes := [34, 44, 32, 34]

/-- The loop over the strings of a value; `fuel` bounds its rounds. -/
def printStringsLoop : Nat → Bool → Bytes → Option Bytes
  | 0, _, _ => some []
  | fuel + 1, first, data =>
    if data = [] then some []
    else do
      let l ← strlen data
      let rest ← printStringsLoop fuel false (data.drop (l + 1))
      return (if first then [] else stringSeparator) ++ data.take l ++ rest

/-- A digit of `%x` -/
def hexDigit (d : Nat) : UInt8 := if d < 10 then .ofNat (48 + d) else .ofNat (87 + d)

/-- The digits of a number in base 16, least significant first. -/
def hexDigits (n : Nat) : List Nat := if n = 0 then [0] else Nat.digits 16 n

/-- `0x%x` -/
def printCell (cell : UInt32) : Bytes := [48, 120] ++ (hexDigits cell.toNat).reverse.map hexDigit

/-- The 32-bit cells of a value. -/
def cells : Nat → Bytes → List UInt32
  | 0, _ => []
  | n + 1, data => cell 0 data :: cells n (data.drop 4)

/-- `of_print_property` -/
def ofPrintProperty (data : Bytes) : Option Bytes :=
  if data = [] then some []
  else do
    if ← isPrintableString data then
      let text ← printStringsLoop data.length true data
      return [34] ++ text ++ [34]
    else if data.length % 4 = 0 then
      return [60] ++ [32].intercalate ((cells (data.length / 4) data).map printCell) ++ [62]
    else return [91] ++ [32].intercalate (data.map hexByte) ++ [93]

example : ofPrintProperty [0, 0, 1, 0xab] = some (cstr "<0x1ab>").1 := by decide +kernel
example : ofPrintProperty [97, 0, 98, 0] = some (cstr "\"a\", \"b\"").1 := by decide +kernel

/-! ## Words and what separates them -/

section
variable {α : Type} {s : α} {t : List α}

/-- What is in front of the first `s`, and what is behind it. -/
theorem append_cons_inj : ∀ {x y u v : List α}, s ∉ x → s ∉ y → x ++ s :: u = y ++ s :: v → x = y ∧ u = v
  | [], [], _, _, _, _, h => by simpa using h
  | [], b :: y, _, _, _, hy, h => by
    rw [List.nil_append, List.cons_append, List.cons.injEq] at h
    exact absurd (h.1 ▸ List.mem_cons_self) hy
  | a :: x, [], _, _, hx, _, h => by
    rw [List.nil_append, List.cons_append, List.cons.injEq] at h
    exact absurd (h.1 ▸ List.mem_cons_self) hx
  | a :: x, b :: y, _, _, hx, hy, h => by
    rw [List.mem_cons, not_or] at hx hy
    rw [List.cons_append, List.cons_append, List.cons.injEq] at h
    obtain ⟨rfl, hrest⟩ := h
    obtain ⟨rfl, huv⟩ := append_cons_inj hx.2 hy.2 hrest
    exact ⟨rfl, huv⟩

/-- Words that do not contain the first element of what separates them are told
by the list. -/
theorem intercalate_inj : ∀ {xs ys : List (List α)}, xs ≠ [] → ys ≠ [] → (∀ x ∈ xs, s ∉ x) → (∀ y ∈ ys, s ∉ y) →
    (s :: t).intercalate xs = (s :: t).intercalate ys → xs = ys
  | [x], [y], _, _, _, _, h => by simpa using h
  | [x], y :: y' :: ys, _, _, hx, _, h => by
    rw [List.intercalate_singleton, List.intercalate_cons_cons] at h
    exact absurd (by simp [h] : s ∈ x) (hx x List.mem_cons_self)
  | x :: x' :: xs, [y], _, _, _, hy, h => by
    rw [List.intercalate_singleton, List.intercalate_cons_cons] at h
    exact absurd (by simp [← h] : s ∈ y) (hy y List.mem_cons_self)
  | x :: x' :: xs, y :: y' :: ys, _, _, hx, hy, h => by
    rw [List.forall_mem_cons] at hx hy
    simp only [List.intercalate_cons_cons, List.append_assoc, List.cons_append] at h
    obtain ⟨rfl, hrest⟩ := append_cons_inj hx.1 hy.1 h
    rw [intercalate_inj (by simp) (by simp) hx.2 hy.2 (List.append_cancel_left hrest)]

end

/-! ## Strings -/

theorem printStringsLoop_eq {ss : List CString} {fuel : Nat} {first : Bool} (hss : ss ≠ []) (h : ss.length ≤ fuel) :
    printStringsLoop fuel first (stringListBytes ss) =
      some ((if first then [] else stringSeparator) ++ stringSeparator.intercalate (ss.map (·.1))) := by
  induction ss generalizing fuel first with
  | nil => exact absurd rfl hss
  | cons s ss ih =>
    obtain ⟨fuel, rfl⟩ : ∃ n, fuel = n + 1 := ⟨fuel - 1, by simp only [List.length_cons] at h; omega⟩
    have hbytes : stringListBytes (s :: ss) = s.1 ++ 0 :: stringListBytes ss := by
      simpa using stringListBytes_cons s ss []
    have hrest : (s.1 ++ 0 :: stringListBytes ss).drop (s.1.length + 1) = stringListBytes ss := by simp
    rw [printStringsLoop, if_neg (by simp [hbytes]), hbytes, strlen_terminated, Option.bind_eq_bind, Option.bind_some,
      hrest, List.take_left]
    by_cases hnil : ss = []
    · subst hnil
      cases fuel <;> simp [printStringsLoop, stringListBytes]
    · rw [ih hnil (by simpa using h), Option.bind_eq_bind, Option.bind_some, List.map_cons,
        List.intercalate_cons_of_ne_nil (mt List.map_eq_nil_iff.1 hnil)]
      simp

theorem length_le_stringListBytes (ss : List CString) : ss.length ≤ (stringListBytes ss).length := by
  induction ss with
  | nil => exact Nat.zero_le _
  | cons s ss ih =>
    rw [stringListBytes] at ih ⊢
    rw [List.flatMap_cons, List.length_append, List.length_append, List.length_cons, List.length_singleton]
    omega

/-- What ends with a NUL is a list of strings. -/
theorem exists_strings_of_getLast? {data : Bytes} (h : data.getLast? = some 0) :
    ∃ ss, ss ≠ [] ∧ data = stringListBytes ss := by
  obtain ⟨ss, tail, rfl, htail⟩ := exists_strings data
  obtain rfl : tail = [] := by
    by_contra hne
    rw [List.getLast?_append_of_ne_nil _ hne] at h
    exact htail (List.mem_of_getLast? h)
  rw [List.append_nil] at h ⊢
  refine ⟨ss, ?_, rfl⟩
  rintro rfl
  cases h

theorem isPrintableLoop_isSome : ∀ {data : Bytes}, data.getLast? = some 0 → (isPrintableLoop data).isSome
  | [], h => by cases h
  | [c], h => by
    rw [List.getLast?_singleton, Option.some.injEq] at h
    subst h
    rfl
  | c :: c' :: s, h => by
    have ih : (isPrintableLoop (c' :: s)).isSome := isPrintableLoop_isSome (by simpa using h)
    rw [isPrintableLoop.eq_def]
    simp only
    repeat' split
    all_goals first | rfl | exact ih

/-! ## Cells and bytes -/

theorem hexDigits_lt {n d : Nat} (h : d ∈ hexDigits n) : d < 16 := by
  rw [hexDigits] at h
  split at h
  · rw [List.mem_singleton.1 h]
    decide
  · exact Nat.digits_lt_base (by decide) h

theorem ofDigits_hexDigits (n : Nat) : Nat.ofDigits 16 (hexDigits n) = n := by
  rw [hexDigits]
  split
  · next h0 => rw [h0, Nat.ofDigits_singleton]
  · exact Nat.ofDigits_digits 16 n

theorem hexDigit_read {d : Nat} (hd : d < 16) : digitValue (hexDigit d) = some d ∧ hexDigit d ≠ 32 := by
  have hall : ∀ d < 16, digitValue (hexDigit d) = some d ∧ hexDigit d ≠ 32 := by decide
  exact hall d hd

theorem printCell_inj {a b : UInt32} (h : printCell a = printCell b) : a = b := by
  have hread (n : Nat) : ((hexDigits n).reverse.map hexDigit).map digitValue = (hexDigits n).reverse.map some := by
    rw [List.map_map]
    exact List.map_congr_left fun d hd => (hexDigit_read (hexDigits_lt (List.mem_reverse.1 hd))).1
  have hdigits := congrArg (List.map digitValue) (List.append_cancel_left h)
  rw [hread, hread] at hdigits
  have hsame : hexDigits a.toNat = hexDigits b.toNat :=
    List.reverse_inj.1 (List.map_injective_iff.2 (Option.some_injective _) hdigits)
  rw [← UInt32.toNat_inj, ← ofDigits_hexDigits a.toNat, hsame, ofDigits_hexDigits]

theorem printCell_no_space (a : UInt32) : (32 : UInt8) ∉ printCell a := by
  intro h
  simp only [printCell, List.mem_append, List.mem_map, List.mem_reverse] at h
  rcases h with h | ⟨d, hd, heq⟩
  · revert h
    decide
  · exact (hexDigit_read (hexDigits_lt hd)).2 heq

theorem hexByte_inj {a b : UInt8} (h : hexByte a = hexByte b) : a = b := by
  obtain ⟨h₁, l₁, ha, -, -, hva⟩ := hexByte_groups a
  obtain ⟨h₂, l₂, hb, -, -, hvb⟩ := hexByte_groups b
  rw [ha, hb] at h
  rw [← hva, ← hvb, h]

theorem hexByte_no_space (a : UInt8) : (32 : UInt8) ∉ hexByte a := by
  obtain ⟨h, l, ha, hh, hl, -⟩ := hexByte_groups a
  rw [ha]
  simp [(digit_ne hh (by decide) : h ≠ 32).symm, (digit_ne hl (by decide) : l ≠ 32).symm]

theorem cell_inj {v w : Bytes} (hv : 4 ≤ v.length) (hw : 4 ≤ w.length) (h : cell 0 v = cell 0 w) :
    v.take 4 = w.take 4 := by
  have hlen {v : Bytes} (hv : 4 ≤ v.length) : (v.take 4).length = 4 := by
    rw [List.length_take]
    omega
  have hcell {v : Bytes} (hv : 4 ≤ v.length) : (cell 0 v).toNat = beNat (v.take 4) := by
    have hlt := beNat_lt (v.take 4)
    rw [hlen hv, show 256 ^ 4 = 2 ^ 32 by norm_num] at hlt
    rw [cell, slice_zero_left, UInt32.toNat_ofNat', Nat.mod_eq_of_lt hlt]
  have hnat := congrArg UInt32.toNat h
  rw [hcell hv, hcell hw] at hnat
  exact List.reverse_inj.1 (leNat_inj (by simp [hlen hv, hlen hw]) hnat)

theorem cells_inj {n m : Nat} {v w : Bytes} (hv : v.length = 4 * n) (hw : w.length = 4 * m)
    (h : cells n v = cells m w) : v = w := by
  induction n generalizing m v w with
  | zero =>
    cases m with
    | zero => rw [List.eq_nil_of_length_eq_zero hv, List.eq_nil_of_length_eq_zero hw]
    | succ m => cases h
  | succ n ih =>
    cases m with
    | zero => cases h
    | succ m =>
      rw [cells, cells, List.cons.injEq] at h
      have hrest := ih (by rw [List.length_drop]; omega) (by rw [List.length_drop]; omega) h.2
      rw [← List.take_append_drop 4 v, ← List.take_append_drop 4 w, cell_inj (by omega) (by omega) h.1, hrest]

/-! ## The text -/

/-- How a value is printed. -/
inductive Printed : Bytes → Bytes → Prop
  | strings {ss} : ss ≠ [] → isPrintableString (stringListBytes ss) = some true →
    Printed (stringListBytes ss) ([34] ++ stringSeparator.intercalate (ss.map (·.1)) ++ [34])
  | cells {v n} : v ≠ [] → v.length = 4 * n →
    Printed v ([60] ++ [32].intercalate ((DtUtils.cells n v).map printCell) ++ [62])
  | bytes {v} : v ≠ [] → Printed v ([91] ++ [32].intercalate (v.map hexByte) ++ [93])

theorem cells_ne_nil {n : Nat} {v : Bytes} (hv : v ≠ []) (hlen : v.length = 4 * n) : cells n v ≠ [] := by
  cases n with
  | zero => exact absurd (List.eq_nil_of_length_eq_zero hlen) hv
  | succ n => exact List.cons_ne_nil _ _

/-- Items that are printed without a space, and told by what is printed. -/
theorem items_inj {α : Type} {print : α → Bytes} (hinj : ∀ {a b}, print a = print b → a = b)
    (hspace : ∀ a, (32 : UInt8) ∉ print a) {xs ys : List α} (hx : xs ≠ []) (hy : ys ≠ [])
    (h : [32].intercalate (xs.map print) = [32].intercalate (ys.map print)) : xs = ys := by
  have hwords (l : List α) : ∀ x ∈ l.map print, (32 : UInt8) ∉ x := by
    intro x hx
    obtain ⟨a, -, rfl⟩ := List.mem_map.1 hx
    exact hspace a
  have hmap := intercalate_inj (mt List.map_eq_nil_iff.1 hx) (mt List.map_eq_nil_iff.1 hy) (hwords xs) (hwords ys) h
  exact List.map_injective_iff.2 (fun _ _ => hinj) hmap

theorem ofPrintProperty_printed {v : Bytes} (hv : v ≠ []) : ∃ text, ofPrintProperty v = some text ∧ Printed v text := by
  have hother (hno : isPrintableString v = some false) : ∃ text, ofPrintProperty v = some text ∧ Printed v text := by
    simp only [ofPrintProperty, if_neg hv, hno, Option.bind_eq_bind, Option.bind_some, Bool.false_eq_true, if_false]
    split
    · next hcells => exact ⟨_, rfl, .cells hv (by omega)⟩
    · exact ⟨_, rfl, .bytes hv⟩
  by_cases hlast : v.getLast? = some 0
  · obtain ⟨yes, hloop⟩ := Option.isSome_iff_exists.1 (isPrintableLoop_isSome hlast)
    have hprintable : isPrintableString v = some yes := by
      rw [isPrintableString, if_neg hv, if_neg (by simp [hlast]), hloop]
    cases yes with
    | false => exact hother hprintable
    | true =>
      obtain ⟨ss, hss, rfl⟩ := exists_strings_of_getLast? hlast
      refine ⟨_, ?_, .strings hss hprintable⟩
      simp only [ofPrintProperty, if_neg hv, hprintable, Option.bind_eq_bind, Option.bind_some, if_true,
        printStringsLoop_eq hss (length_le_stringListBytes ss), List.nil_append]
      rfl
  · exact hother (by rw [isPrintableString, if_neg hv, if_pos hlast])

theorem strings_inj {ss ss' : List CString} (hss : ss ≠ []) (hss' : ss' ≠ []) (hquote : 34 ∉ stringListBytes ss)
    (hquote' : 34 ∉ stringListBytes ss')
    (h : stringSeparator.intercalate (ss.map (·.1)) = stringSeparator.intercalate (ss'.map (·.1))) : ss = ss' := by
  have hwords {ss : List CString} (hquote : 34 ∉ stringListBytes ss) : ∀ x ∈ ss.map (·.1), (34 : UInt8) ∉ x := by
    intro x hx hmem
    obtain ⟨s, hs, rfl⟩ := List.mem_map.1 hx
    exact hquote (List.mem_flatMap.2 ⟨s, hs, List.mem_append_left _ hmem⟩)
  have hmap : ss.map (·.1) = ss'.map (·.1) :=
    intercalate_inj (mt List.map_eq_nil_iff.1 hss) (mt List.map_eq_nil_iff.1 hss') (hwords hquote) (hwords hquote') h
  exact List.map_injective_iff.2 Subtype.val_injective hmap

/-- **The dump is unambiguous** but for quotes: two values that are printed
alike are equal, or strings, one of them with a quote in it. -/
theorem print_property_unambiguous {v w : Bytes} (hv : v ≠ []) (hw : w ≠ [])
    (h : ofPrintProperty v = ofPrintProperty w) :
    v = w ∨ isPrintableString v = some true ∧ isPrintableString w = some true ∧ (34 ∈ v ∨ 34 ∈ w) := by
  obtain ⟨text, hv', hprinted⟩ := ofPrintProperty_printed hv
  obtain ⟨text', hw', hprinted'⟩ := ofPrintProperty_printed hw
  rw [hv', hw', Option.some.injEq] at h
  subst h
  -- Neither separator nor bracket leaves a choice.
  cases hprinted with
  | @strings ss hss hyes =>
    generalize htext : [34] ++ stringSeparator.intercalate (ss.map (·.1)) ++ [34] = text at hprinted'
    cases hprinted' with
    | @strings ss' hss' hyes' =>
      by_cases hquote : 34 ∈ stringListBytes ss ∨ 34 ∈ stringListBytes ss'
      · exact .inr ⟨hyes, hyes', hquote⟩
      · rw [not_or] at hquote
        have hwords := List.append_cancel_left (List.append_cancel_right htext)
        exact .inl (congrArg stringListBytes (strings_inj hss hss' hquote.1 hquote.2 hwords))
    | cells => cases htext
    | bytes => cases htext
  | @cells _ n _ hlen =>
    generalize htext : [60] ++ [32].intercalate ((cells n v).map printCell) ++ [62] = text at hprinted'
    cases hprinted' with
    | strings => cases htext
    | @cells _ m _ hlen' =>
      have hwords := List.append_cancel_left (List.append_cancel_right htext)
      have hcells := items_inj printCell_inj printCell_no_space (cells_ne_nil hv hlen) (cells_ne_nil hw hlen') hwords
      exact .inl (cells_inj hlen hlen' hcells)
    | bytes => cases htext
  | bytes =>
    generalize htext : [91] ++ [32].intercalate (v.map hexByte) ++ [93] = text at hprinted'
    cases hprinted' with
    | strings => cases htext
    | cells => cases htext
    | bytes =>
      have hwords := List.append_cancel_left (List.append_cancel_right htext)
      exact .inl (items_inj hexByte_inj hexByte_no_space hv hw hwords)

/-- One string with quotes in it, and two without. -/
def quotedString : Bytes := (cstr "a\", \"b").1 ++ [0]

def twoStrings : Bytes := (cstr "a").1 ++ [0] ++ (cstr "b").1 ++ [0]

theorem print_property_unambiguous_quoted : quotedString = twoStrings ∨ isPrintableString quotedString = some true ∧
    isPrintableString twoStrings = some true ∧ (34 ∈ quotedString ∨ 34 ∈ twoStrings) :=
  print_property_unambiguous (by decide +kernel) (by decide +kernel) (by decide +kernel)

/-- They are printed alike. -/
theorem print_property_quotes : ofPrintProperty quotedString = some (cstr "\"a\", \"b\"").1 ∧
    ofPrintProperty twoStrings = ofPrintProperty quotedString ∧ twoStrings ≠ quotedString := by
  decide +kernel

end DtUtils
