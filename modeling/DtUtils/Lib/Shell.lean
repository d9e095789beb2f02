/-
How the POSIX shell reads an assignment with a double-quoted word. Inside the
quotes `$` and the backquote begin an expansion, and a backslash goes away in
front of the four special characters and, with it, in front of a newline.
-/
import DtUtils.Lib.Words

namespace Lib

def newline : UInt8 := 10
def doubleQuote : UInt8 := 34
def dollar : UInt8 := 36
def equalsSign : UInt8 := 61
def backslash : UInt8 := 92
def underscore : UInt8 := 95
def backquote : UInt8 := 96

/-- A letter, a digit or `_`. -/
def isNameChar (c : UInt8) : Bool := (48 ≤ c ∧ c ≤ 57) ∨ (65 ≤ c ∧ c ≤ 90) ∨ (97 ≤ c ∧ c ≤ 122) ∨ c = underscore

/-- The name of a parameter does not begin with a digit. -/
def isName (s : Bytes) : Bool := s ≠ [] ∧ s.all isNameChar ∧ s.head?.all fun c => ¬ (48 ≤ c ∧ c ≤ 57)

/-- Behind an opening quote: the rest of the word, and what follows the
closing quote. `none` if there is no closing quote, or if something in front of
it is expanded. -/
def readQuoted : Bytes → Option (Bytes × Bytes)
  | [] => none
  | c :: rest =>
    if c = doubleQuote then some ([], rest)
    else if c = dollar ∨ c = backquote then none
    else if c = backslash then
      match rest with
      | [] => none
      | e :: rest =>
        if e = newline then readQuoted rest
        else if e ∈ [doubleQuote, dollar, backquote, backslash] then
          (readQuoted rest).map fun (word, rest) => (e :: word, rest)
        else (readQuoted rest).map fun (word, rest) => (backslash :: e :: word, rest)
    else (readQuoted rest).map fun (word, rest) => (c :: word, rest)

/-- What a line assigns, if it is one assignment of a quoted word and nothing
else. -/
def readAssignment (line : Bytes) : Option (Bytes × Bytes) :=
  let name := line.takeWhile (· ≠ equalsSign)
  if isName name then
    match line.drop name.length with
    | eq :: quote :: rest =>
      if eq = equalsSign ∧ quote = doubleQuote then
        match readQuoted rest with
        | some (value, [c]) => if c = newline then some (name, value) else none
        | _ => none
      else none
    | _ => none
  else none

example : readAssignment [97, 61, 34, 92, 34, 34, 10] = some ([97], [34]) := by decide

/-- The double quotes leave this string alone: it has none of the characters
that end or expand it, and every backslash in it has something behind it that
it does not quote. -/
def Plain : Bytes → Prop
  | [] => True
  | c :: s => c ∉ [doubleQuote, dollar, backquote] ∧
    (c = backslash → ∃ e ∈ s.head?, e ≠ backslash ∧ e ≠ newline) ∧ Plain s

instance Plain.decidable : ∀ s, Decidable (Plain s)
  | [] => isTrue trivial
  | _ :: s => have := Plain.decidable s; inferInstanceAs (Decidable (_ ∧ _ ∧ Plain s))

theorem plain_of_forall {s : Bytes} (h : ∀ c ∈ s, c ∉ [doubleQuote, dollar, backquote, backslash]) : Plain s := by
  induction s with
  | nil => trivial
  | cons c s ih =>
    rw [List.forall_mem_cons] at h
    obtain ⟨hc, hs⟩ := h
    simp only [List.mem_cons, List.not_mem_nil, or_false, not_or] at hc
    refine ⟨by simp [hc], fun hb => absurd hb hc.2.2.2, ih hs⟩

theorem Plain.special {c : UInt8} {s : Bytes} (h : Plain (c :: s)) : c ≠ doubleQuote ∧ c ≠ dollar ∧ c ≠ backquote := by
  simpa only [List.mem_cons, List.not_mem_nil, or_false, not_or] using h.1

theorem Plain.readQuoted {rest : Bytes} : ∀ {s : Bytes}, Plain s →
    Lib.readQuoted (s ++ doubleQuote :: rest) = some (s, rest)
  | [], _ => by
    rw [List.nil_append, Lib.readQuoted.eq_def]
    exact if_pos rfl
  | c :: s, h => by
    obtain ⟨hquote, hdollar, hback⟩ := h.special
    rw [List.cons_append, Lib.readQuoted.eq_def]
    simp only [if_neg hquote, if_neg (not_or.2 ⟨hdollar, hback⟩)]
    split
    · next hc =>
      -- What is behind the backslash is not quoted by it.
      obtain ⟨-, hbehind, hs⟩ := h
      obtain ⟨e, he, hne, hnl⟩ := hbehind hc
      obtain ⟨s', rfl⟩ := List.head?_eq_some_iff.1 he
      obtain ⟨heq, hed, heb⟩ := hs.special
      obtain ⟨-, -, hs'⟩ := hs
      subst hc
      simp only [List.cons_append, if_neg hnl, hs'.readQuoted, Option.map_some]
      rw [if_neg (by simp [heq, hed, heb, hne])]
    · obtain ⟨-, -, hs⟩ := h
      rw [hs.readQuoted, Option.map_some]

/-- Reading makes no word longer, and it keeps the length only of a plain one. -/
theorem readQuoted_length {s word rest : Bytes} (h : readQuoted s = some (word, rest)) :
    word.length + rest.length + 1 ≤ s.length ∧
      (word.length + rest.length + 1 = s.length → s = word ++ doubleQuote :: rest ∧ Plain word) := by
  induction s using readQuoted.induct generalizing word rest with
  | case1 => cases h
  | case2 rest' =>
    rw [readQuoted.eq_def] at h
    simp only [if_true, Option.some.injEq, Prod.mk.injEq] at h
    obtain ⟨rfl, rfl⟩ := h
    exact ⟨by simp, fun _ => ⟨rfl, trivial⟩⟩
  | case3 c rest' hquote hexpand =>
    rw [readQuoted.eq_def] at h
    simp only [if_neg hquote, if_pos hexpand, reduceCtorEq] at h
  | case4 =>
    rw [readQuoted.eq_def] at h
    cases h
  | case5 rest' hquote hexpand ih =>
    -- The newline is lost with its backslash.
    rw [readQuoted.eq_def] at h
    simp only [if_neg hquote, if_neg hexpand, if_true] at h
    obtain ⟨hle, -⟩ := ih h
    simp only [List.length_cons]
    omega
  | case6 e rest' hnl hspecial hquote hexpand ih =>
    rw [readQuoted.eq_def] at h
    simp only [if_neg hquote, if_neg hexpand, if_true, if_neg hnl, if_pos hspecial] at h
    obtain ⟨⟨word', rest₁⟩, hread, heq⟩ := Option.map_eq_some_iff.1 h
    cases heq
    obtain ⟨hle, -⟩ := ih hread
    simp only [List.length_cons]
    omega
  | case7 e rest' hnl hspecial hquote hexpand ih =>
    rw [readQuoted.eq_def] at h
    simp only [if_neg hquote, if_neg hexpand, if_true, if_neg hnl, if_neg hspecial] at h
    obtain ⟨⟨word', rest₁⟩, hread, heq⟩ := Option.map_eq_some_iff.1 h
    cases heq
    obtain ⟨hle, hplain⟩ := ih hread
    simp only [List.length_cons]
    refine ⟨by omega, fun hlen => ?_⟩
    obtain ⟨rfl, hword⟩ := hplain (by omega)
    simp only [List.mem_cons, List.not_mem_nil, or_false, not_or] at hspecial
    obtain ⟨h₁, h₂, h₃, hne⟩ := hspecial
    have he : Plain (e :: word') := ⟨by simp [h₁, h₂, h₃], fun hb => absurd hb hne, hword⟩
    exact ⟨rfl, by decide, fun _ => ⟨e, rfl, hne, hnl⟩, he⟩
  | case8 c rest' hquote hexpand hback ih =>
    rw [readQuoted.eq_def] at h
    simp only [if_neg hquote, if_neg hexpand, if_neg hback] at h
    obtain ⟨⟨word', rest₁⟩, hread, heq⟩ := Option.map_eq_some_iff.1 h
    cases heq
    obtain ⟨hle, hplain⟩ := ih hread
    simp only [List.length_cons]
    refine ⟨by omega, fun hlen => ?_⟩
    obtain ⟨rfl, hword⟩ := hplain (by omega)
    obtain ⟨h₁, h₂⟩ := not_or.1 hexpand
    exact ⟨rfl, by simp [hquote, h₁, h₂], fun hb => absurd hb hback, hword⟩

theorem isName.no_equalsSign {s : Bytes} (h : isName s = true) : ∀ c ∈ s, c ≠ equalsSign := by
  simp only [isName, decide_eq_true_eq, List.all_eq_true] at h
  rintro c hc rfl
  exact absurd (h.2.1 _ hc) (by decide)

theorem readAssignment_eq_some {line name value : Bytes} (h : readAssignment line = some (name, value)) :
    isName name = true ∧ ∃ rest, line.drop name.length = equalsSign :: doubleQuote :: rest ∧
      readQuoted rest = some (value, [newline]) := by
  simp only [readAssignment] at h
  split at h
  · next hname =>
    split at h
    · next eq quote rest hrest =>
      split at h
      · next hchars =>
        split at h
        · next hread =>
          split at h
          · next hnl =>
            obtain ⟨rfl, rfl⟩ := hchars
            subst hnl
            simp only [Option.some.injEq, Prod.mk.injEq] at h
            obtain ⟨rfl, rfl⟩ := h
            exact ⟨hname, rest, hrest, hread⟩
          · cases h
        · cases h
      · cases h
    · cases h
  · cases h

/-- **An assignment** of a string between double quotes, as a line, is read as
such exactly if the name is one and the string is plain. -/
theorem readAssignment_iff {name value : Bytes} :
    readAssignment (name ++ equalsSign :: doubleQuote :: value ++ [doubleQuote, newline]) = some (name, value) ↔
      isName name = true ∧ Plain value := by
  have hdrop : (name ++ equalsSign :: doubleQuote :: value ++ [doubleQuote, newline]).drop name.length =
      equalsSign :: doubleQuote :: (value ++ doubleQuote :: [newline]) := by simp
  constructor
  · intro h
    obtain ⟨hname, rest, hrest, hread⟩ := readAssignment_eq_some h
    rw [hdrop] at hrest
    cases hrest
    obtain ⟨-, hplain⟩ := readQuoted_length hread
    exact ⟨hname, (hplain (by simp)).2⟩
  · rintro ⟨hname, hplain⟩
    have htake : (name ++ equalsSign :: doubleQuote :: value ++ [doubleQuote, newline]).takeWhile (· ≠ equalsSign) =
        name := by
      rw [List.append_assoc, List.takeWhile_append_of_pos fun c hc => by simpa using isName.no_equalsSign hname c hc]
      simp
    simp only [readAssignment, htake, hname, if_true, hdrop, hplain.readQuoted, and_self]

end Lib
