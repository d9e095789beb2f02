/-
Which strings `state_set_var` takes for a variable, against the literals of
its type: a number in the notation of C, one of the names, six bytes in
hexadecimal, or a string that has room.
-/
import DtUtils.Values

namespace DtUtils
open Lib

/-! ## Literals -/

/-- The number that digits denote. -/
def digitsNat (base : Nat) (s : Bytes) : Nat := s.foldl (fun n c => n * base + (digitValue c).getD 0) 0

/-- An integer literal of C and its value, with nothing in front of it and
nothing behind. -/
inductive Numeral : Bytes → Nat → Prop
  | decimal {s} : s ≠ [] → s.head? ≠ some 48 → (∀ c ∈ s, isDigit 10 c) → Numeral s (digitsNat 10 s)
  | octal {s} : s.head? = some 48 → (∀ c ∈ s, isDigit 8 c) → Numeral s (digitsNat 8 s)
  | hexadecimal {x s} : x = 120 ∨ x = 88 → s ≠ [] → (∀ c ∈ s, isDigit 16 c) → Numeral (48 :: x :: s) (digitsNat 16 s)

/-- Groups of two hexadecimal digits with colons between them, and the byte
that each denotes. -/
inductive HexGroups : Bytes → Bytes → Prop
  | last {h l} : isDigit 16 h → isDigit 16 l → HexGroups [h, l] [.ofNat (digitsNat 16 [h, l])]
  | group {h l s m} : isDigit 16 h → isDigit 16 l → HexGroups s m →
    HexGroups (h :: l :: 58 :: s) (.ofNat (digitsNat 16 [h, l]) :: m)

/-- `val` is a literal of the variable's type, and the string is how the value
that it denotes is written. -/
inductive VarData.Literal : VarData → CString → CString → Prop
  | uint8 {v dflt val n} : Numeral val.1 n → n ≤ 255 → Literal (.uint8 v dflt) val (DtUtils.decimal (.ofNat n))
  | uint32 {v dflt val n} : Numeral val.1 n → n < 2 ^ 32 → Literal (.uint32 v dflt) val (DtUtils.decimal (.ofNat n))
  | enum32 {v dflt names val} : val ∈ names → Literal (.enum32 v dflt names) val val
  | mac {v dflt val} {m : Mac} : HexGroups val.1 m.1 → Literal (.mac v dflt) val (macString m)
  | string {s val} : val.1.length ≤ s.raw.length → Literal (.string s) val val

/-- Setting the variable `sv`, which `name` finds, accepts a literal, which is
then what is read, and refuses any other string. -/
structure SetsLiterals (vars : List StateVariable) (name : CString) (sv : StateVariable) (val : CString) : Prop where
  accepts : ∀ c, sv.data.Literal val c → ∃ vars' set, stateSetVar vars name val = some (vars', set, 0) ∧
    stateGetVar vars' name = some (some c)
  refuses : (¬ ∃ c, sv.data.Literal val c) → ∃ ret ≠ 0, stateSetVar vars name val = some (vars, false, ret)

/-- `num_names` is an `int`. -/
def VarData.FewNames : VarData → Prop
  | .enum32 _ _ names => names.length < 2 ^ 31
  | _ => True

/-- What `string_to_ethaddr` looks at. -/
def EthaddrShape (s : Bytes) : Prop := s.length = 17 ∧ ∀ i ∈ [2, 5, 8, 11, 14], s[i]? = some 58

/-- When a variable with this value accepts `val` as a literal or refuses it
as none. -/
def VarData.Strict : VarData → CString → Prop
  | .uint8 v _, val => (∃ n ≤ 255, Numeral val.1 n) ∨ 255 < (strtoul val.1 0).1 ∧ val ≠ decimal v
  | .uint32 _ _, val => ∃ n < 2 ^ 32, Numeral val.1 n
  | .enum32 v _ names, _ => v.toNat < names.length
  | .mac _ _, val => (∃ m : Mac, HexGroups val.1 m.1) ∨ ¬ EthaddrShape val.1
  | .string _, _ => True

/-! ## Digits -/

theorem isDigit_range {base : Nat} {c : UInt8} (h : isDigit base c) :
    (digitValue c).getD 0 < base ∧
      (48 ≤ c.toNat ∧ c.toNat ≤ 57 ∨ 97 ≤ c.toNat ∧ c.toNat ≤ 102 ∨ 65 ≤ c.toNat ∧ c.toNat ≤ 70) := by
  rw [isDigit, digitValue] at h
  rw [digitValue]
  split at h
  · next hc =>
    rw [if_pos hc]
    exact ⟨by simpa using h, .inl ⟨UInt8.le_iff_toNat_le.1 hc.1, UInt8.le_iff_toNat_le.1 hc.2⟩⟩
  split at h
  · next hn hc =>
    rw [if_neg hn, if_pos hc]
    exact ⟨by simpa using h, .inr (.inl ⟨UInt8.le_iff_toNat_le.1 hc.1, UInt8.le_iff_toNat_le.1 hc.2⟩)⟩
  split at h
  · next hn hn' hc =>
    rw [if_neg hn, if_neg hn', if_pos hc]
    exact ⟨by simpa using h, .inr (.inr ⟨UInt8.le_iff_toNat_le.1 hc.1, UInt8.le_iff_toNat_le.1 hc.2⟩)⟩
  · simp at h

theorem isDigit_mono {base base' : Nat} (hle : base ≤ base') {c : UInt8} (h : isDigit base c) : isDigit base' c := by
  rw [isDigit, Option.any_eq_true] at h ⊢
  obtain ⟨d, hd, hlt⟩ := h
  exact ⟨d, hd, by simp only [decide_eq_true_eq] at hlt ⊢; omega⟩

theorem not_isDigit {base : Nat} {c : UInt8} (h : c.toNat < 48 ∨ 57 < c.toNat ∧ c.toNat < 65 ∨
    70 < c.toNat ∧ c.toNat < 97 ∨ 102 < c.toNat) :
    isDigit base c = false := by
  by_contra hd
  have := isDigit_range (Bool.not_eq_false _ ▸ hd)
  omega

theorem digit_not_isSpace {base : Nat} {c : UInt8} (h : isDigit base c) : isSpace c = false := by
  have hr := isDigit_range h
  simp only [isSpace, decide_eq_false_iff_not, not_or, not_and, UInt8.le_iff_toNat_le, ← UInt8.toNat_inj]
  refine ⟨?_, fun _ => ?_⟩ <;>
  · simp only [UInt8.reduceToNat]
    omega

theorem digit_ne {base : Nat} {c d : UInt8} (h : isDigit base c)
    (hd : d.toNat < 48 ∨ 57 < d.toNat ∧ d.toNat < 65 ∨ 70 < d.toNat ∧ d.toNat < 97 ∨ 102 < d.toNat) : c ≠ d :=
        fun he => by
  have := @not_isDigit base d hd
  rw [← he, h] at this
  cases this

theorem takeWhile_digits {base : Nat} {t r : Bytes} (ht : ∀ c ∈ t, isDigit base c)
    (hr : ∀ c ∈ r.head?, isDigit base c = false) :
    (t ++ r).takeWhile (isDigit base) = t := by
  rw [List.takeWhile_append_of_pos ht]
  cases r with
  | nil => simp
  | cons c r => simp [hr c rfl]

/-- A string that begins with a digit, and whose digits are `t`. -/
theorem strtoul_digits {s t r : Bytes} {base b : Nat} (hhead : ∃ c s', s = c :: s' ∧ isDigit 16 c)
    (hbase : strtoulBase base s = (b, t ++ r)) (hne : t ≠ []) (ht : ∀ c ∈ t, isDigit b c)
    (hr : ∀ c ∈ r.head?, isDigit b c = false) :
    strtoul s base = (if 2 ^ 64 ≤ digitsNat b t then 2 ^ 64 - 1 else digitsNat b t, r) := by
  obtain ⟨c, s', rfl, hc⟩ := hhead
  have hblank : (c :: s').dropWhile isSpace = c :: s' := by rw [List.dropWhile_cons, digit_not_isSpace hc]; rfl
  have hminus : c ≠ 45 := digit_ne hc (by decide)
  have hplus : c ≠ 43 := digit_ne hc (by decide)
  have hfold : t.foldl (fun n c => n * b + (digitValue c).getD 0) 0 = digitsNat b t := rfl
  simp only [strtoul, hblank, List.head?_cons, Option.some.injEq, hminus, hplus, or_self, if_false, hbase,
    takeWhile_digits ht hr, hne, List.drop_left, hfold]
  split <;> rfl

theorem hexPrefix_digit {base : Nat} {h l : UInt8} {s : Bytes} (hl : isDigit base l) :
    hexPrefix (h :: l :: s) = false := by
  rw [hexPrefix.eq_def]
  split
  · next heq =>
    cases heq
    simp [digit_ne hl (d := 120) (by decide), digit_ne hl (d := 88) (by decide)]
  · rfl

/-- `strtoul` reads a whole literal. -/
theorem Numeral.strtoul {s : Bytes} {n : Nat} (h : Numeral s n) :
    DtUtils.strtoul s 0 = (if 2 ^ 64 ≤ n then 2 ^ 64 - 1 else n, []) := by
  cases h with
  | decimal hne hhead hdigits =>
    obtain ⟨c, s', rfl⟩ := List.exists_cons_of_ne_nil hne
    have hzero : c ≠ 48 := fun h => hhead (h ▸ rfl)
    refine strtoul_digits ⟨c, s', rfl, isDigit_mono (by decide) (hdigits c List.mem_cons_self)⟩ ?_ hne hdigits nofun
    rw [strtoulBase, if_neg (by simp [hexPrefix, hzero]), if_pos rfl, if_neg hhead, List.append_nil]
  | octal hhead hdigits =>
    obtain ⟨s', rfl⟩ := List.head?_eq_some_iff.1 hhead
    refine strtoul_digits ⟨48, s', rfl, by decide⟩ ?_ (by simp) hdigits nofun
    have hx : hexPrefix (48 :: s') = false := by
      cases s' with
      | nil => rfl
      | cons x s' => exact hexPrefix_digit (hdigits x (by simp))
    rw [strtoulBase, if_neg (by simp [hx]), if_pos rfl, if_pos hhead, List.append_nil]
  | @hexadecimal x s hx hne hdigits =>
    obtain ⟨d, s', rfl⟩ := List.exists_cons_of_ne_nil hne
    refine strtoul_digits ⟨48, _, rfl, by decide⟩ ?_ hne hdigits nofun
    rw [strtoulBase, if_pos ⟨.inl rfl, by simp [hexPrefix, hx, hdigits d List.mem_cons_self]⟩, List.append_nil]
    rfl

theorem Numeral.unique {s : Bytes} {n n' : Nat} (h : Numeral s n) (h' : Numeral s n') (hn : n < 2 ^ 64 - 1) :
    n' = n := by
  have he := congrArg Prod.fst (h.strtoul.symm.trans h'.strtoul)
  simp only at he
  split at he <;> split at he <;> omega

/-! ## The canonical spellings -/

theorem hexDigit_value {d : UInt8} (h : d.toNat < 16) :
    digitValue (if d < 10 then 48 + d else 87 + d) = some d.toNat := by
  have hall : ∀ n < 16, digitValue (if UInt8.ofNat n < 10 then 48 + .ofNat n else 87 + .ofNat n) = some n := by decide
  have hd := hall d.toNat h
  rwa [UInt8.ofNat_toNat] at hd

theorem hexByte_groups (b : UInt8) : ∃ h l, hexByte b = [h, l] ∧ isDigit 16 h ∧ isDigit 16 l ∧
    .ofNat (digitsNat 16 [h, l]) = b := by
  have hb := b.toNat_lt
  have hh := hexDigit_value (d := b / 16) (by rw [UInt8.toNat_div]; exact Nat.div_lt_of_lt_mul hb)
  have hl := hexDigit_value (d := b % 16) (by rw [UInt8.toNat_mod]; exact Nat.mod_lt _ (by decide))
  refine ⟨_, _, rfl, ?_, ?_, ?_⟩
  · simp [isDigit, hh, UInt8.toNat_div]
    omega
  · simp [isDigit, hl, UInt8.toNat_mod]
    omega
  · simp only [digitsNat, List.foldl_cons, List.foldl_nil, hh, hl, Option.getD_some, UInt8.toNat_div, UInt8.toNat_mod]
    rw [← UInt8.toNat_inj, UInt8.toNat_ofNat']
    simp only [UInt8.reduceToNat]
    omega

theorem hexBytes_groups : ∀ (m : Bytes), m ≠ [] → HexGroups ([58].intercalate (m.map hexByte)) m
  | [b], _ => by
    obtain ⟨h, l, he, hh, hl, hb⟩ := hexByte_groups b
    have := HexGroups.last hh hl
    rw [hb] at this
    simpa [List.intercalate, he] using this
  | b :: b' :: m, _ => by
    obtain ⟨h, l, he, hh, hl, hb⟩ := hexByte_groups b
    have := HexGroups.group hh hl (hexBytes_groups (b' :: m) (by simp))
    rw [hb] at this
    simpa [List.intercalate, he] using this

theorem HexGroups.nonzero {s m : Bytes} (h : HexGroups s m) : (0 : UInt8) ∉ s := by
  have hdigit {c : UInt8} (hc : isDigit 16 c) : 0 ≠ c := (digit_ne hc (by decide)).symm
  induction h with
  | last hh hl => simp [hdigit hh, hdigit hl]
  | group hh hl _ ih => simp [hdigit hh, hdigit hl, ih]

theorem macString_groups (m : Mac) : HexGroups (macString m).1 m.1 := by
  have hm := m.2
  have h := hexBytes_groups m.1 (fun h0 => by rw [h0] at hm; cases hm)
  have he : (macString m).1 = [58].intercalate (m.1.map hexByte) :=
    List.takeWhile_eq_self_iff.2 fun c hc => by
      simp only [ne_eq, decide_eq_true_eq]
      rintro rfl
      exact h.nonzero hc
  rwa [he]

/-- Two digits in front of something else are a number of `strtoul`. -/
theorem strtoul_group {h l : UInt8} {r : Bytes} (hh : isDigit 16 h) (hl : isDigit 16 l)
    (hr : ∀ c ∈ r.head?, isDigit 16 c = false) : strtoul (h :: l :: r) 16 = (digitsNat 16 [h, l], r) := by
  have hlt : digitsNat 16 [h, l] < 2 ^ 64 := by
    have hdh := (isDigit_range hh).1
    have hdl := (isDigit_range hl).1
    simp only [digitsNat, List.foldl_cons, List.foldl_nil]
    omega
  have hread := @strtoul_digits (h :: l :: r) [h, l] r 16 16 ⟨h, _, rfl, hh⟩
    (by rw [strtoulBase, if_neg (by simp [hexPrefix_digit hl]), if_neg (by decide)]; rfl) (by simp)
        (by simp [hh, hl]) hr
  rwa [if_neg (by omega)] at hread

theorem HexGroups.ethaddrBytes {s m : Bytes} (h : HexGroups s m) : DtUtils.ethaddrBytes m.length s = m := by
  induction h with
  | last hh hl =>
    rw [List.length_singleton, DtUtils.ethaddrBytes, strtoul_group (r := []) hh hl (by simp)]
    rfl
  | @group _ _ s m hh hl _ ih =>
    have hcolon : ∀ c ∈ (58 :: s).head?, isDigit 16 c = false := fun c hc => by
      simp only [List.head?_cons, Option.mem_def, Option.some.injEq] at hc
      subst hc
      decide
    rw [List.length_cons, DtUtils.ethaddrBytes, strtoul_group hh hl hcolon]
    exact congrArg _ ih

theorem HexGroups.length {s m : Bytes} (h : HexGroups s m) : s.length + 1 = 3 * m.length := by
  induction h with
  | last => rfl
  | group _ _ _ ih =>
    simp only [List.length_cons]
    omega

theorem HexGroups.colon {s m : Bytes} (h : HexGroups s m) : ∀ k, k + 1 < m.length → s[3 * k + 2]? = some 58 := by
  induction h with
  | last =>
    intro k hk
    simp at hk
  | group _ _ _ ih =>
    intro k hk
    match k with
    | 0 => rfl
    | k + 1 =>
      rw [show 3 * (k + 1) + 2 = (3 * k + 2) + 3 by omega]
      exact ih k (by simpa using hk)

theorem HexGroups.shape {s : Bytes} {m : Mac} (h : HexGroups s m.1) : EthaddrShape s := by
  have hm := m.2
  have hlen := h.length
  refine ⟨by omega, fun i hi => ?_⟩
  obtain ⟨k, hk, rfl⟩ : ∃ k < 5, i = 3 * k + 2 := by
    simp only [List.mem_cons, List.not_mem_nil, or_false] at hi
    exact ⟨i / 3, by omega, by omega⟩
  exact h.colon k (by omega)

/-- What `string_to_ethaddr` yields, for a string of the right shape. -/
theorem stringToEthaddr_shape {val : CString} (h : EthaddrShape val.1) :
    stringToEthaddr val = .ok ⟨DtUtils.ethaddrBytes 6 val.1, ethaddrBytes_length 6 _⟩ := by
  rw [stringToEthaddr, if_neg (by simp [h.1]), if_neg]
  simp only [List.any_eq_true, decide_eq_true_eq, not_exists, not_and, not_not]
  exact h.2

theorem stringToEthaddr_other {val : CString} (h : ¬ EthaddrShape val.1) : stringToEthaddr val = .error (-EINVAL) := by
  rw [stringToEthaddr]
  split
  · rfl
  · next hlen =>
    rw [if_pos]
    simp only [List.any_eq_true, decide_eq_true_eq]
    by_contra hno
    exact h ⟨by omega, fun i hi => by by_contra hne; exact hno ⟨i, hi, hne⟩⟩

/-- The bytes of a decimal number -/
def decimalBytes (n : Nat) : Bytes := (Nat.toDigits 10 n).map fun c => .ofNat c.toNat

theorem decimalBytes_eq (n : Nat) : decimalBytes n =
    (if n < 10 then [] else decimalBytes (n / 10)) ++ [.ofNat (48 + n % 10)] := by
  have hdigit : ∀ d < 10, UInt8.ofNat (Nat.digitChar d).toNat = .ofNat (48 + d) := by decide
  rw [decimalBytes, Nat.toDigits_eq_if (by decide)]
  split
  · next hlt =>
    rw [List.map_singleton, hdigit n hlt, Nat.mod_eq_of_lt hlt]
    rfl
  · rw [List.map_append, List.map_singleton, hdigit _ (Nat.mod_lt n (by decide))]
    rfl

/-- Its digits denote the number, and begin with a zero only if it is 0. -/
theorem decimalBytes_digits (n : Nat) : decimalBytes n ≠ [] ∧ (∀ c ∈ decimalBytes n, isDigit 10 c) ∧
    digitsNat 10 (decimalBytes n) = n ∧ ((decimalBytes n).head? = some 48 → n = 0) := by
  induction n using Nat.strong_induction_on with
  | _ n ih =>
    have hlast : ∀ d < 10, digitValue (.ofNat (48 + d)) = some d ∧ (UInt8.ofNat (48 + d) = 48 → d = 0) := by decide
    obtain ⟨hval, hzero⟩ := hlast _ (Nat.mod_lt n (by decide))
    have hd : isDigit 10 (.ofNat (48 + n % 10)) := by
      rw [isDigit, hval]
      simpa using Nat.mod_lt n (by decide)
    rw [decimalBytes_eq]
    split
    · next hlt =>
      refine ⟨by simp, by simpa using hd, ?_, fun h => ?_⟩
      · simp only [digitsNat, List.nil_append, List.foldl_cons, List.foldl_nil, hval, Option.getD_some]
        omega
      · have := hzero (by simpa using h)
        omega
    · next hge =>
      obtain ⟨hne, hdigits, hn, hhead⟩ := ih (n / 10) (by omega)
      refine ⟨by simp, ?_, ?_, fun h => ?_⟩
      · simp only [List.mem_append, List.mem_singleton]
        rintro c (hc | rfl)
        · exact hdigits c hc
        · exact hd
      · rw [digitsNat, List.foldl_append]
        rw [digitsNat] at hn
        simp only [hn, List.foldl_cons, List.foldl_nil, hval, Option.getD_some]
        omega
      · rw [List.head?_append_of_ne_nil _ hne] at h
        have := hhead h
        omega

theorem decimal_eq (v : UInt32) : (decimal v).1 = decimalBytes v.toNat := by
  obtain ⟨-, hdigits, -, -⟩ := decimalBytes_digits v.toNat
  rw [decimal, cstr]
  simp only [Nat.toString_eq_ofList_toDigits, String.toList_ofList]
  exact List.filter_eq_self.2 fun c hc => by simpa using digit_ne (hdigits c hc) (d := 0) (by decide)

theorem decimal_numeral (v : UInt32) : Numeral (decimal v).1 v.toNat := by
  obtain ⟨hne, hdigits, hval, hhead⟩ := decimalBytes_digits v.toNat
  rw [decimal_eq]
  by_cases h : (decimalBytes v.toNat).head? = some 48
  · rw [hhead h]
    refine .octal (s := [48]) rfl fun c hc => ?_
    rw [List.mem_singleton.1 hc]
    decide
  · have := Numeral.decimal hne h hdigits
    rwa [hval] at this

/-! ## One variable -/

/-- What `state_set_var` does to the variable that it found. -/
def VarData.setVar (d : VarData) (val : CString) : Option (VarData × Bool × Int) :=
  d.get.map fun oldval =>
    if oldval = val then (d, false, 0) else ((d.set val).1, decide ((d.set val).2 = 0), (d.set val).2)

/-- `SetsLiterals` for the variable alone. -/
structure VarData.SetsLiterals (d : VarData) (val : CString) : Prop where
  accepts : ∀ c, d.Literal val c → ∃ d' set, d.setVar val = some (d', set, 0) ∧ d'.get = some c
  refuses : (¬ ∃ c, d.Literal val c) → ∃ ret ≠ 0, d.setVar val = some (d, false, ret)

section
variable {val : CString}

/-- The value is left alone if it reads like the new one. -/
theorem VarData.setVar_same {d : VarData} (h : d.get = some val) : d.setVar val = some (d, false, 0) := by
  rw [setVar, h, Option.map_some, if_pos rfl]

theorem VarData.setVar_other {d d' : VarData} {old : CString} {ret : Int} (h : d.get = some old) (hne : old ≠ val)
    (hset : d.set val = (d', ret)) : d.setVar val = some (d', decide (ret = 0), ret) := by
  rw [setVar, h, Option.map_some, if_neg hne, hset]

theorem Numeral.strtoul_small {s : Bytes} {n : Nat} (h : Numeral s n) (hn : n < 2 ^ 32) :
    (DtUtils.strtoul s 0).1 = n := by
  rw [h.strtoul, if_neg (by omega)]

theorem Numeral.spelled {v : UInt32} {n : Nat} (h : Numeral val.1 n) (he : DtUtils.decimal v = val) : .ofNat n = v := by
  subst he
  rw [(decimal_numeral v).unique h (by have := v.toNat_lt; omega), UInt32.ofNat_toNat]

theorem VarData.uint8_strict (v dflt : UInt32) :
    (VarData.uint8 v dflt).SetsLiterals val ↔ (VarData.uint8 v dflt).Strict val := by
  have hget : (VarData.uint8 v dflt).get = some (decimal v) := rfl
  constructor
  · intro h
    by_cases hlit : ∃ n ≤ 255, Numeral val.1 n
    · exact .inl hlit
    obtain ⟨ret, hret, hset⟩ := h.refuses fun ⟨_, .uint8 hnum hn⟩ => hlit ⟨_, hn, hnum⟩
    have hne : decimal v ≠ val := fun he => by
      cases hset.symm.trans (setVar_same (he ▸ hget))
      exact hret rfl
    refine .inr ⟨?_, hne.symm⟩
    by_contra hsmall
    have hok : (VarData.uint8 v dflt).set val = (.uint8 (.ofNat (strtoul val.1 0).1) dflt, 0) := by
        rw [set, if_neg hsmall]
    cases hset.symm.trans (setVar_other hget hne hok)
  · rintro (⟨n, hn, hnum⟩ | ⟨hbig, hne⟩)
    · refine ⟨?_, fun hno => absurd ⟨_, .uint8 hnum hn⟩ hno⟩
      rintro c (@⟨_, _, _, n', hnum', hn'⟩)
      by_cases he : decimal v = val
      · exact ⟨_, _, setVar_same (he ▸ hget), by rw [hnum'.spelled he]; exact hget⟩
      · have hok : (VarData.uint8 v dflt).set val = (.uint8 (.ofNat n') dflt, 0) := by
          rw [set, hnum'.strtoul_small (by omega), if_neg (by omega)]
        exact ⟨_, _, setVar_other hget he hok, rfl⟩
    · refine ⟨?_, fun _ => ⟨-ERANGE, by decide, setVar_other hget hne.symm (by rw [set, if_pos hbig])⟩⟩
      rintro c (@⟨_, _, _, n, hnum, hn⟩)
      rw [hnum.strtoul_small (by omega)] at hbig
      omega

theorem VarData.uint32_strict (v dflt : UInt32) :
    (VarData.uint32 v dflt).SetsLiterals val ↔ (VarData.uint32 v dflt).Strict val := by
  have hget : (VarData.uint32 v dflt).get = some (decimal v) := rfl
  constructor
  · intro h
    by_contra hno
    obtain ⟨ret, hret, hset⟩ := h.refuses fun ⟨_, .uint32 hnum hn⟩ => hno ⟨_, hn, hnum⟩
    by_cases he : decimal v = val
    · cases hset.symm.trans (setVar_same (he ▸ hget))
      exact hret rfl
    · cases hset.symm.trans (setVar_other hget he rfl)
  · rintro ⟨n, hn, hnum⟩
    refine ⟨?_, fun hno => absurd ⟨_, .uint32 hnum hn⟩ hno⟩
    rintro c (_ | @⟨_, _, _, n', hnum', hn'⟩)
    by_cases he : decimal v = val
    · exact ⟨_, _, setVar_same (he ▸ hget), by rw [hnum'.spelled he]; exact hget⟩
    · have hok : (VarData.uint32 v dflt).set val = (.uint32 (.ofNat n') dflt, 0) := by rw [set, hnum'.strtoul_small hn']
      exact ⟨_, _, setVar_other hget he hok, rfl⟩

/-- The value of an enumeration is the place of one of its names, or is read
from behind them. -/
theorem VarData.enum32_strict {v dflt : UInt32} {names : List CString} (hnames : names.length < 2 ^ 31) :
    (VarData.enum32 v dflt names).SetsLiterals val ↔ (VarData.enum32 v dflt names).Strict val := by
  constructor
  · intro h
    by_contra hge
    have hget : (VarData.enum32 v dflt names).get = none := List.getElem?_eq_none (by simpa [Strict] using hge)
    have hnone : (VarData.enum32 v dflt names).setVar val = none := by
      rw [setVar, hget]
      rfl
    by_cases hlit : ∃ c, (VarData.enum32 v dflt names).Literal val c
    · obtain ⟨c, hc⟩ := hlit
      obtain ⟨d', set, hset, -⟩ := h.accepts c hc
      cases hnone.symm.trans hset
    · obtain ⟨ret, -, hset⟩ := h.refuses hlit
      cases hnone.symm.trans hset
  · intro hlt
    have hget : (VarData.enum32 v dflt names).get = some (names.get ⟨v.toNat, hlt⟩) := List.getElem?_eq_getElem hlt
    constructor
    · rintro c (_ | _ | ⟨hmem⟩)
      by_cases he : names.get ⟨v.toNat, hlt⟩ = val
      · exact ⟨_, _, setVar_same (he ▸ hget), he ▸ hget⟩
      obtain ⟨i, hi⟩ : ∃ i, names.findIdx? (· = val) = some i :=
        Option.isSome_iff_exists.1 (List.findIdx?_isSome.trans (List.any_eq_true.2 ⟨val, hmem, by simp⟩))
      obtain ⟨hilt, hname, -⟩ := List.findIdx?_eq_some_iff_getElem.1 hi
      have hok : (VarData.enum32 v dflt names).set val = (.enum32 (.ofNat i) dflt names, 0) := by rw [set, hi]
      refine ⟨_, _, setVar_other hget he hok, ?_⟩
      rw [get, UInt32.toNat_ofNat', Nat.mod_eq_of_lt (by omega), List.getElem?_eq_getElem hilt]
      exact congrArg some (by simpa using hname)
    · intro hno
      have hnot : val ∉ names := fun hmem => hno ⟨_, .enum32 hmem⟩
      have hset : (VarData.enum32 v dflt names).set val = (.enum32 v dflt names, -EINVAL) := by
        rw [set, List.findIdx?_eq_none_iff.2 fun x hx => by simpa using fun he : x = val => hnot (he ▸ hx)]
      have hne : names.get ⟨v.toNat, hlt⟩ ≠ val := fun he => hnot (he ▸ names.get_mem ⟨v.toNat, hlt⟩)
      exact ⟨-EINVAL, by decide, setVar_other hget hne hset⟩

theorem VarData.mac_strict (v dflt : Mac) : (VarData.mac v dflt).SetsLiterals val ↔
    (VarData.mac v dflt).Strict val := by
  have hget : (VarData.mac v dflt).get = some (macString v) := rfl
  have hread {m : Mac} (h : HexGroups val.1 m.1) : stringToEthaddr val = .ok m := by
    have hb := h.ethaddrBytes
    rw [m.2] at hb
    rw [stringToEthaddr_shape h.shape]
    exact congrArg _ (Subtype.ext hb)
  constructor
  · intro h
    by_contra hno
    simp only [Strict, not_or, not_not] at hno
    obtain ⟨hlit, hshape⟩ := hno
    obtain ⟨ret, hret, hset⟩ := h.refuses (by
      rintro ⟨_, _ | _ | _ | hgroups⟩
      exact hlit ⟨_, hgroups⟩)
    have hne : macString v ≠ val := fun he => hlit ⟨v, he ▸ macString_groups v⟩
    have hok : (VarData.mac v dflt).set val = (.mac ⟨_, ethaddrBytes_length 6 val.1⟩ dflt, 0) := by
      rw [set, stringToEthaddr_shape hshape]
    cases hset.symm.trans (setVar_other hget hne hok)
  · rintro (⟨m, hgroups⟩ | hshape)
    · refine ⟨?_, fun hno => absurd ⟨_, .mac hgroups⟩ hno⟩
      rintro c (_ | _ | _ | @⟨_, _, _, m', hgroups'⟩)
      by_cases he : macString v = val
      · have hv : HexGroups val.1 v.1 := he ▸ macString_groups v
        cases (hread hv).symm.trans (hread hgroups')
        exact ⟨_, _, setVar_same (he ▸ hget), hget⟩
      · have hok : (VarData.mac v dflt).set val = (.mac m' dflt, 0) := by rw [set, hread hgroups']
        exact ⟨_, _, setVar_other hget he hok, rfl⟩
    · have hne : macString v ≠ val := fun he => hshape (he ▸ (macString_groups v).shape)
      have hset : (VarData.mac v dflt).set val = (.mac v dflt, -EINVAL) := by rw [set, stringToEthaddr_other hshape]
      refine ⟨?_, fun _ => ⟨-EINVAL, by decide, setVar_other hget hne hset⟩⟩
      rintro c (_ | _ | _ | ⟨hgroups⟩)
      exact absurd hgroups.shape hshape

/-- A string that has room is read back up to its NUL. -/
theorem stateStringCopyToRaw_get {s : StateString} (h : val.1.length ≤ s.raw.length) :
    (stateStringCopyToRaw s val).2 = 0 ∧ CString.of (stateStringCopyToRaw s val).1.raw = val := by
  rw [stateStringCopyToRaw, dif_pos h]
  refine ⟨rfl, Subtype.ext ?_⟩
  have hval : ∀ c ∈ val.1, decide (c ≠ 0) = true := fun c hc => by
    simp only [ne_eq, decide_eq_true_eq]
    rintro rfl
    exact val.2 hc
  simp only [CString.of]
  rw [List.takeWhile_append_of_pos hval]
  simp

theorem VarData.string_strict (s : StateString) : (VarData.string s).SetsLiterals val := by
  have hget : (VarData.string s).get = some (CString.of s.raw) := rfl
  constructor
  · rintro c (_ | _ | _ | _ | ⟨hroom⟩)
    by_cases he : CString.of s.raw = val
    · exact ⟨_, _, setVar_same (he ▸ hget), he ▸ hget⟩
    · obtain ⟨hret, hraw⟩ := stateStringCopyToRaw_get hroom
      have hok : (VarData.string s).set val = (.string { (stateStringCopyToRaw s val).1 with value := some val },
          0) := by
        simp [set, hret]
      exact ⟨_, _, setVar_other hget he hok, congrArg some hraw⟩
  · intro hno
    have hlong : ¬ val.1.length ≤ s.raw.length := fun hroom => hno ⟨_, .string hroom⟩
    have hne : CString.of s.raw ≠ val := fun he => by
      subst he
      exact hlong (List.takeWhile_prefix _).length_le
    have hset : (VarData.string s).set val = (.string s, -EILSEQ) := by
      simp only [set, stateStringCopyToRaw, dif_neg hlong]
      rfl
    exact ⟨-EILSEQ, by decide, setVar_other hget hne hset⟩

theorem VarData.setsLiterals_iff {d : VarData} (hnames : d.FewNames) : d.SetsLiterals val ↔ d.Strict val := by
  cases d with
  | uint8 v dflt => exact uint8_strict v dflt
  | uint32 v dflt => exact uint32_strict v dflt
  | enum32 v dflt names => exact enum32_strict hnames
  | mac v dflt => exact mac_strict v dflt
  | string s => exact iff_of_true (string_strict s) trivial

end

/-! ## Among the others -/

section
variable {vars before behind : List StateVariable} {name val : CString} {sv : StateVariable}

/-- The variable that a name finds, and those in front of it. -/
theorem stateFindVar_split (h : stateFindVar vars name = some sv) :
    ∃ before behind, vars = before ++ sv :: behind ∧ (∀ x ∈ before, x.name ≠ name) ∧ sv.name = name := by
  obtain ⟨hname, before, behind, he, hbefore⟩ := List.find?_eq_some_iff_append.1 h
  exact ⟨before, behind, he, fun x hx => by simpa using hbefore x hx, by simpa using hname⟩

theorem stateFindVar_append (hbefore : ∀ x ∈ before, x.name ≠ name) (hname : sv.name = name) :
    stateFindVar (before ++ sv :: behind) name = some sv := by
  rw [stateFindVar, List.find?_append, List.find?_eq_none.2 fun x hx => by simpa using hbefore x hx]
  simp [hname]

theorem stateSetVar_append (hname : sv.name = name) : ∀ {before : List StateVariable}, (∀ x ∈ before, x.name ≠ name) →
    stateSetVar (before ++ sv :: behind) name val =
      (sv.data.setVar val).map fun (data, set, ret) => (before ++ { sv with data := data } :: behind, set, ret)
  | [], _ => by
    rw [List.nil_append, stateSetVar, if_pos hname, VarData.setVar]
    cases sv.data.get with
    | none => rfl
    | some oldval =>
      simp only [Option.map_some]
      split <;> rfl
  | x :: before, hbefore => by
    rw [List.cons_append, stateSetVar, if_neg (hbefore x List.mem_cons_self),
      stateSetVar_append hname fun y hy => hbefore y (List.mem_cons_of_mem _ hy), Option.map_map]
    rfl

theorem setsLiterals_append (hbefore : ∀ x ∈ before, x.name ≠ name) (hname : sv.name = name) :
    SetsLiterals (before ++ sv :: behind) name sv val ↔ sv.data.SetsLiterals val := by
  have hset := @stateSetVar_append behind name val sv hname before hbefore
  have hget (data : VarData) : stateGetVar (before ++ { sv with data := data } :: behind) name = data.get.map some := by
    rw [stateGetVar, @stateFindVar_append before behind name { sv with data := data } hbefore hname]
  constructor
  · intro h
    refine ⟨fun c hc => ?_, fun hno => ?_⟩
    · obtain ⟨vars', set, hs, hg⟩ := h.accepts c hc
      rw [hset, Option.map_eq_some_iff] at hs
      obtain ⟨⟨d', set', ret⟩, hd, he⟩ := hs
      cases he
      rw [hget, Option.map_eq_some_iff] at hg
      obtain ⟨c', hc', he⟩ := hg
      cases he
      exact ⟨d', _, hd, hc'⟩
    · obtain ⟨ret, hret, hs⟩ := h.refuses hno
      rw [hset, Option.map_eq_some_iff] at hs
      obtain ⟨⟨d', set', ret'⟩, hd, he⟩ := hs
      simp only [Prod.mk.injEq, List.append_cancel_left_eq, List.cons.injEq, and_true] at he
      obtain ⟨hsv, rfl, rfl⟩ := he
      exact ⟨_, hret, by rw [hd, ← hsv]⟩
  · intro h
    refine ⟨fun c hc => ?_, fun hno => ?_⟩
    · obtain ⟨d', set, hd, hg⟩ := h.accepts c hc
      exact ⟨_, set, by rw [hset, hd]; rfl, by rw [hget, hg]; rfl⟩
    · obtain ⟨ret, hret, hd⟩ := h.refuses hno
      exact ⟨ret, hret, by rw [hset, hd]; rfl⟩

theorem setsLiterals_single : SetsLiterals [sv] sv.name sv val ↔ sv.data.SetsLiterals val :=
  @setsLiterals_append [] [] sv.name val sv (by simp) rfl

end

/-- **A variable accepts exactly literals for an integer literal in range, a
uint8 also for a number out of range that is not its value already; for an
enumeration whose value has a name; for six groups, or what has not their
shape; and for any string.** -/
theorem set_literals_iff {vars : List StateVariable} {name : CString} {sv : StateVariable}
    (hfind : stateFindVar vars name = some sv) (hnames : sv.data.FewNames) (val : CString) :
    SetsLiterals vars name sv val ↔ sv.data.Strict val := by
  obtain ⟨before, behind, rfl, hbefore, hname⟩ := stateFindVar_split hfind
  rw [setsLiterals_append hbefore hname]
  exact VarData.setsLiterals_iff hnames

/-- The second name of an enumeration with two, set to the first one. -/
theorem set_literals_names :
    SetsLiterals [⟨cstr "n", 0, .uint8 7 0⟩, ⟨cstr "mode", 1, .enum32 1 0 [cstr "off", cstr "on"]⟩] (cstr "mode")
      ⟨cstr "mode", 1, .enum32 1 0 [cstr "off", cstr "on"]⟩ (cstr "off") :=
  (@set_literals_iff _ _ ⟨cstr "mode", 1, .enum32 1 0 [cstr "off", cstr "on"]⟩ (by decide)
    (show 2 < 2 ^ 31 by decide) _).2 (show 1 < 2 by decide)

/-- A number with letters behind it is accepted, and a MAC address with
letters that are no digits. -/
theorem set_accepts_other_strings :
    ¬ SetsLiterals [⟨cstr "n", 0, .uint32 0 0⟩] (cstr "n") ⟨cstr "n", 0, .uint32 0 0⟩ (cstr "12abc") ∧
      ¬ SetsLiterals [⟨cstr "m", 0, .mac ⟨[0, 0, 0, 0, 0, 0], rfl⟩ ⟨[0, 0, 0, 0, 0, 0], rfl⟩⟩] (cstr "m")
        ⟨cstr "m", 0, .mac ⟨[0, 0, 0, 0, 0, 0], rfl⟩ ⟨[0, 0, 0, 0, 0, 0], rfl⟩⟩ (cstr "0z:00:00:00:00:00") := by
  refine ⟨fun h => ?_, fun h => ?_⟩
  · obtain ⟨n, -, hnum⟩ := (VarData.uint32_strict 0 0).1 (setsLiterals_single.1 h)
    have hrest : (strtoul (cstr "12abc").1 0).2 = [] := congrArg Prod.snd hnum.strtoul
    exact absurd hrest (by decide +kernel)
  · rcases (VarData.mac_strict _ _).1 (setsLiterals_single.1 h) with ⟨m, hgroups⟩ | hshape
    · have hz : (cstr "0z:00:00:00:00:00").1 = 48 :: 122 :: 58 :: (cstr "00:00:00:00:00").1 := by decide +kernel
      rw [hz] at hgroups
      generalize m.1 = bytes at hgroups
      cases hgroups with
      | group _ hl _ => exact absurd hl (by decide)
    · exact hshape ⟨by decide +kernel, by decide +kernel⟩

end DtUtils
