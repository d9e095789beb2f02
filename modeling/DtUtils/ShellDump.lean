/-
The lines that `--dump-shell` prints for a shell to evaluate. A value is put
between double quotes as it is, and the dots of a name become underscores, so
that a line says what `state_get_var` says only of plain values
(`dump_shell_faithful_iff`).
-/
import DtUtils.Lib.Shell
import DtUtils.Layout
import DtUtils.Setters

namespace DtUtils
open Lib

def dot : UInt8 := 46

/-- The name that a variable has in the dump. -/
def shellName (stateName name : CString) : Bytes :=
  stateName.1 ++ underscore :: name.1.map fun c => if c = dot then underscore else c

/-- What is printed for a variable: `%s_%s="%s"`. -/
def dumpShellLine (stateName : CString) (sv : StateVariable) : Option Bytes :=
  sv.data.get.map fun val =>
    shellName stateName sv.name ++ equalsSign :: doubleQuote :: val.1 ++ [doubleQuote, newline]

/-- Every line is one assignment of what `state_get_var` returns, and no two
variables are assigned to one name. -/
structure DumpFaithful (stateName : CString) (vars : List StateVariable) : Prop where
  lines : ∀ sv ∈ vars, ∃ line val, dumpShellLine stateName sv = some line ∧
    stateGetVar vars sv.name = some (some val) ∧ readAssignment line = some (shellName stateName sv.name, val.1)
  names : vars.Pairwise fun a b => shellName stateName a.name ≠ shellName stateName b.name

/-- Two names with at most a dot in the one where the other has an underscore. -/
def DotAlike (a b : CString) : Prop :=
  List.Forall₂ (fun x y => x = y ∨ x ∈ [dot, underscore] ∧ y ∈ [dot, underscore]) a.1 b.1

/-- The name of the enumeration's number, or the content of the string, means
itself between double quotes. -/
def VarData.ShellSafe : VarData → Prop
  | .enum32 v _ names => ∃ name ∈ names[v.toNat]?, Plain name.1
  | .string s => Plain (CString.of s.raw).1
  | _ => True

instance (a b : CString) : Decidable (DotAlike a b) := inferInstanceAs (Decidable (List.Forall₂ _ _ _))

instance : ∀ d : VarData, Decidable d.ShellSafe
  | .uint8 .. | .uint32 .. | .mac .. => isTrue trivial
  | .enum32 v _ names => inferInstanceAs (Decidable (∃ name ∈ names[v.toNat]?, Plain name.1))
  | .string s => inferInstanceAs (Decidable (Plain (CString.of s.raw).1))

/-- When the dump is faithful. -/
structure DumpSafe (stateName : CString) (vars : List StateVariable) : Prop where
  state : vars ≠ [] → isName (stateName.1 ++ [underscore]) = true
  values : ∀ sv ∈ vars, sv.data.ShellSafe
  names : vars.Pairwise fun a b => ¬ DotAlike a.name b.name

/-! ## Values -/

theorem plain_of_digits {s : Bytes} (h : ∀ c ∈ s, isDigit 16 c ∨ c = 58) : Plain s := by
  refine plain_of_forall fun c hc => ?_
  rcases h c hc with hdigit | rfl
  · simp only [List.mem_cons, List.not_mem_nil, or_false, not_or]
    exact ⟨digit_ne hdigit (by decide), digit_ne hdigit (by decide), digit_ne hdigit (by decide),
      digit_ne hdigit (by decide)⟩
  · decide

theorem decimal_plain (v : UInt32) : Plain (decimal v).1 := by
  obtain ⟨-, hdigits, -, -⟩ := decimalBytes_digits v.toNat
  rw [decimal_eq]
  exact plain_of_digits fun c hc => .inl (isDigit_mono (by decide) (hdigits c hc))

theorem HexGroups.digits {s m : Bytes} (h : HexGroups s m) : ∀ c ∈ s, isDigit 16 c ∨ c = 58 := by
  induction h with
  | last hh hl => simp [hh, hl]
  | group hh hl _ ih => simpa [hh, hl] using ih

/-- A value is safe if it can be read and is plain. -/
theorem VarData.shellSafe_iff {d : VarData} : d.ShellSafe ↔ ∃ val, d.get = some val ∧ Plain val.1 := by
  cases d with
  | uint8 v dflt => exact ⟨fun _ => ⟨_, rfl, decimal_plain v⟩, fun _ => trivial⟩
  | uint32 v dflt => exact ⟨fun _ => ⟨_, rfl, decimal_plain v⟩, fun _ => trivial⟩
  | enum32 v dflt names => exact Iff.rfl
  | mac v dflt => exact ⟨fun _ => ⟨_, rfl, plain_of_digits (macString_groups v).digits⟩, fun _ => trivial⟩
  | string s =>
    constructor
    · exact fun h => ⟨_, rfl, h⟩
    · rintro ⟨val, hval, hplain⟩
      cases hval
      exact hplain

/-! ## Names -/

section
variable {stateName name name' : CString}

/-- The state's part of a shell name decides, as the variable's part is made of
its characters. -/
theorem isName_shellName (h : ∀ c ∈ name.1, isNameChar c ∨ c = dot) :
    isName (shellName stateName name) = isName (stateName.1 ++ [underscore]) := by
  have hname : (name.1.map fun c => if c = dot then underscore else c).all isNameChar = true := by
    simp only [List.all_map, List.all_eq_true, Function.comp_apply]
    intro c hc
    rcases h c hc with hchar | rfl
    · split
      · decide
      · exact hchar
    · decide
  have hhead : (shellName stateName name).head? = (stateName.1 ++ [underscore]).head? := by
    rw [shellName]
    cases stateName.1 <;> rfl
  have hall : (shellName stateName name).all isNameChar = (stateName.1 ++ [underscore]).all isNameChar := by
    simp [shellName, hname]
  rw [isName, isName, hhead, hall]
  simp [shellName]

theorem shellName_eq_iff : shellName stateName name = shellName stateName name' ↔ DotAlike name name' := by
  have hchar : ∀ x y : UInt8, (if x = dot then underscore else x) = (if y = dot then underscore else y) ↔
      x = y ∨ x ∈ [dot, underscore] ∧ y ∈ [dot, underscore] := by
    intro x y
    have hne : dot ≠ underscore := by decide
    simp only [List.mem_cons, List.not_mem_nil, or_false]
    grind
  rw [shellName, shellName, List.append_cancel_left_eq, List.cons.injEq, DotAlike]
  simp only [true_and]
  generalize name.1 = a
  generalize name'.1 = b
  induction a generalizing b with
  | nil => cases b <;> simp
  | cons x a ih =>
    cases b with
    | nil => simp
    | cons y b =>
      rw [List.map_cons, List.map_cons, List.cons.injEq, List.forall₂_cons, hchar]
      exact and_congr_right fun _ => ih b

/-- The first variable of that name, if there is no other one. -/
theorem stateGetVar_of_distinct {vars : List StateVariable} {sv : StateVariable}
    (h : vars.Pairwise fun a b => a.name ≠ b.name) (hsv : sv ∈ vars) :
    stateGetVar vars sv.name = sv.data.get.map some := by
  have hfind : stateFindVar vars sv.name = some sv := by
    induction h with
    | nil => cases hsv
    | @cons a vars ha _ ih =>
      rcases List.mem_cons.1 hsv with rfl | hmem
      · exact List.find?_cons_of_pos (by simp)
      · rw [stateFindVar, List.find?_cons_of_neg (by simpa using ha sv hmem)]
        exact ih hmem
  rw [stateGetVar, hfind]

end

/-- **The dump is faithful** exactly if the state's name begins a shell name,
every value means itself between double quotes, and no two names of variables
are told apart by dots only. -/
theorem dump_shell_faithful_iff {stateName : CString} {vars : List StateVariable}
    (hnames : ∀ sv ∈ vars, ∀ c ∈ sv.name.1, isNameChar c ∨ c = dot) :
    DumpFaithful stateName vars ↔ DumpSafe stateName vars := by
  -- What one line is read as.
  have hread : ∀ sv ∈ vars, ∀ val : CString,
      readAssignment (shellName stateName sv.name ++ equalsSign :: doubleQuote :: val.1 ++ [doubleQuote, newline]) =
          some (shellName stateName sv.name, val.1) ↔
        isName (stateName.1 ++ [underscore]) = true ∧ Plain val.1 := by
    intro sv hsv val
    rw [readAssignment_iff, isName_shellName (hnames sv hsv)]
  have halike : vars.Pairwise (fun a b => shellName stateName a.name ≠ shellName stateName b.name) ↔
      vars.Pairwise fun a b => ¬ DotAlike a.name b.name := by
    simp only [ne_eq, shellName_eq_iff]
  have hdistinct (h : vars.Pairwise fun a b => shellName stateName a.name ≠ shellName stateName b.name) :
      vars.Pairwise fun a b => a.name ≠ b.name :=
    h.imp fun hne heq => hne (congrArg (shellName stateName) heq)
  constructor
  · intro h
    have hline : ∀ sv ∈ vars, isName (stateName.1 ++ [underscore]) = true ∧ sv.data.ShellSafe := by
      intro sv hsv
      obtain ⟨line, val, hprinted, hvar, hassigned⟩ := h.lines sv hsv
      obtain ⟨val', hget, rfl⟩ := Option.map_eq_some_iff.1 hprinted
      rw [stateGetVar_of_distinct (hdistinct h.names) hsv, hget, Option.map_some, Option.some.injEq,
        Option.some.injEq] at hvar
      subst hvar
      obtain ⟨hstate, hplain⟩ := (hread sv hsv val').1 hassigned
      exact ⟨hstate, VarData.shellSafe_iff.2 ⟨val', hget, hplain⟩⟩
    refine ⟨fun hne => ?_, fun sv hsv => (hline sv hsv).2, halike.1 h.names⟩
    obtain ⟨sv, vars', rfl⟩ := List.exists_cons_of_ne_nil hne
    exact (hline sv List.mem_cons_self).1
  · intro h
    refine ⟨fun sv hsv => ?_, halike.2 h.names⟩
    obtain ⟨val, hget, hplain⟩ := VarData.shellSafe_iff.1 (h.values sv hsv)
    refine ⟨_, val, by rw [dumpShellLine, hget, Option.map_some], ?_, ?_⟩
    · rw [stateGetVar_of_distinct (hdistinct (halike.2 h.names)) hsv, hget, Option.map_some]
    · exact (hread sv hsv val).2 ⟨h.state (List.ne_nil_of_mem hsv), hplain⟩

/-- A number and a string with characters that are special elsewhere. -/
def greetingNode : DeviceNode :=
  stateNode [variableNode "count@0" "uint8" 0 1 [],
    variableNode "text.0@1" "string" 1 8 [⟨cstr "default", (cstr "a b\\c;").1 ++ [0]⟩]]

/-- They are dumped for a state with the name `state`. -/
theorem dump_shell_faithful_greeting :
    ∃ s, stateFromNodeCreate greetingNode = some (s, 0) ∧ DumpFaithful (cstr "state") s.vars := by
  obtain ⟨s, hs⟩ : ∃ s, acceptedState greetingNode = some s := Option.isSome_iff_exists.1 (by decide +kernel)
  have heval : (acceptedState greetingNode).map (fun s => decide (
      (∀ sv ∈ s.vars, ∀ c ∈ sv.name.1, isNameChar c = true ∨ c = dot) ∧ (∀ sv ∈ s.vars, sv.data.ShellSafe) ∧
        s.vars.Pairwise fun a b => ¬ DotAlike a.name b.name)) = some true := by decide +kernel
  rw [hs, Option.map_some, Option.some.injEq, decide_eq_true_eq] at heval
  obtain ⟨hnames, hvalues, hdistinct⟩ := heval
  have hsafe : DumpSafe (cstr "state") s.vars := ⟨fun _ => by decide +kernel, hvalues, hdistinct⟩
  exact ⟨s, acceptedState_eq hs, (dump_shell_faithful_iff hnames).2 hsafe⟩

/-- A string that a shell expands. -/
def expandingNode : DeviceNode :=
  stateNode [variableNode "a@0" "string" 0 8 [⟨cstr "default", (cstr "$(halt)").1 ++ [0]⟩]]

/-- Two names that only a dot tells apart. -/
def dottedNode : DeviceNode :=
  stateNode [.node (cstr "a") 0 [] [variableNode "b@0" "uint8" 0 1 []], variableNode "a_b@1" "uint8" 1 1 []]

/-- The line of the string is no assignment, and the two names become one. -/
theorem dump_shell_expands : (∃ s, stateFromNodeCreate expandingNode = some (s, 0) ∧
      stateGetVar s.vars (cstr "a") = some (some (cstr "$(halt)")) ∧ ¬ DumpFaithful (cstr "state") s.vars) ∧
    ∃ s, stateFromNodeCreate dottedNode = some (s, 0) ∧ ¬ DumpFaithful (cstr "state") s.vars := by
  obtain ⟨s, hs⟩ : ∃ s, acceptedState expandingNode = some s := Option.isSome_iff_exists.1 (by decide +kernel)
  obtain ⟨t, ht⟩ : ∃ t, acceptedState dottedNode = some t := Option.isSome_iff_exists.1 (by decide +kernel)
  have hexpands : (acceptedState expandingNode).map (fun s => (stateGetVar s.vars (cstr "a"),
      s.vars.any fun sv => ((dumpShellLine (cstr "state") sv).bind readAssignment).isNone)) =
    some (some (some (cstr "$(halt)")), true) := by decide +kernel
  have hdotted : (acceptedState dottedNode).map (fun t => decide (
      t.vars.Pairwise fun a b => shellName (cstr "state") a.name ≠ shellName (cstr "state") b.name)) =
    some false := by decide +kernel
  rw [hs, Option.map_some, Option.some.injEq, Prod.mk.injEq] at hexpands
  rw [ht, Option.map_some, Option.some.injEq, decide_eq_false_iff_not] at hdotted
  obtain ⟨hget, hnone⟩ := hexpands
  refine ⟨⟨s, acceptedState_eq hs, hget, fun h => ?_⟩, t, acceptedState_eq ht, fun h => hdotted h.names⟩
  obtain ⟨sv, hsv, hread⟩ := List.any_eq_true.1 hnone
  obtain ⟨line, val, hline, -, hassigned⟩ := h.lines sv hsv
  rw [hline, Option.bind_some, hassigned] at hread
  cases hread

end DtUtils
