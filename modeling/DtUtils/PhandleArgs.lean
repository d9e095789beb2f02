/-
Lists of phandles with arguments: `__of_parse_phandle_with_args` goes through
the cells of a property in groups, whose lengths are properties of the nodes
they point to, and either counts them or stops at one. Both see the groups that
`PhandleGroups` describes (`phandle_lists_agree`). `none` results are reads
outside the property.
-/
import DtUtils.Phandles

namespace DtUtils
open Lib

/-! ## The loop -/

/-- `MAX_PHANDLE_ARGS` -/
def maxPhandleArgs : Nat := 8

/-- `struct of_phandle_args`, with as many arguments as `args_count` says -/
structure PhandleArgs where
  np : Nat
  args : List UInt32
deriving DecidableEq

/-- The cell with this number. -/
def cellAt (value : Bytes) (i : Nat) : Option UInt32 :=
  if 4 * (i + 1) ≤ value.length then some (cell (4 * i) value) else none

/-- `count` cells, one after the other. -/
def readCells (value : Bytes) : Nat → Nat → Option (List UInt32)
  | _, 0 => some []
  | list, count + 1 => do
    let arg ← cellAt value list
    let args ← readCells value (list + 1) count
    return arg :: args

/-- The node that a phandle stands for and the number of its arguments, which
are to end at `listEnd`. -/
def phandleProvider (t : NodeTree) (cellsName : CString) (listEnd list : Nat) (phandle : UInt32) :
    Option (Except Int (Nat × UInt32)) := do
  match ← ofFindNodeByPhandle t phandle with
  | none => return .error (-EINVAL)
  | some node =>
    match ofPropertyReadU32 (t.node node).device cellsName with
    | .error _ => return .error (-EINVAL)
    | .ok count => return if list + count.toNat > listEnd then .error (-EINVAL) else .ok (node, count)

section
variable (t : NodeTree) (value : Bytes) (cellsName : CString) (index : Int) (outArgs : Bool)

/-- The loop of `__of_parse_phandle_with_args`: the return value, and what is
written to `out_args` if that is not `NULL`. `list` counts cells, and `fuel`
bounds the number of rounds. -/
def phandleArgsLoop : Nat → Nat → Int → Option (Int × Option PhandleArgs)
  | 0, _, _ => none
  | fuel + 1, list, curIndex =>
    if list < value.length / 4 then do
      let phandle ← cellAt value list
      if phandle = 0 then
        if curIndex = index then return (-ENOENT, none)
        else phandleArgsLoop fuel (list + 1) (curIndex + 1)
      else
        match ← phandleProvider t cellsName (value.length / 4) (list + 1) phandle with
        | .error e => return (e, none)
        | .ok (node, count) =>
          if curIndex = index then
            if outArgs then do
              let args ← readCells value (list + 1) (min count.toNat maxPhandleArgs)
              return (0, some ⟨node, args⟩)
            else return (0, none)
          else phandleArgsLoop fuel (list + 1 + count.toNat) (curIndex + 1)
    else return (if index < 0 then curIndex else -ENOENT, none)

end

/-- `__of_parse_phandle_with_args` -/
def parsePhandleWithArgs (t : NodeTree) (np : Nat) (listName cellsName : CString) (index : Int) (outArgs : Bool) :
    Option (Int × Option PhandleArgs) :=
  match ofGetProperty (t.node np).device listName with
  | none => some (-ENOENT, none)
  | some list => phandleArgsLoop t list cellsName index outArgs (list.length / 4 + 1) 0 0

/-- `of_parse_phandle_with_args` -/
def ofParsePhandleWithArgs (t : NodeTree) (np : Nat) (listName cellsName : CString) (index : Int) (outArgs : Bool) :
    Option (Int × Option PhandleArgs) :=
  if index < 0 then some (-EINVAL, none) else parsePhandleWithArgs t np listName cellsName index outArgs

/-- `of_count_phandle_with_args` -/
def ofCountPhandleWithArgs (t : NodeTree) (np : Nat) (listName cellsName : CString) : Option Int :=
  (parsePhandleWithArgs t np listName cellsName (-1) false).map Prod.fst

/-! ## The groups -/

/-- The whole cells of a property. -/
def cellsOf (value : Bytes) : List UInt32 := (List.range (value.length / 4)).map fun i => cell (4 * i) value

/-- A group of cells: a 0, or a node with its arguments. -/
inductive PhandleGroup
  | empty
  | entry (node : Nat) (args : List UInt32)

/-- The phandle's node, and the number of arguments that its cells property
gives. -/
def PhandleTarget (t : NodeTree) (cellsName : CString) (phandle : UInt32) (node : Nat) (count : UInt32) : Prop :=
  ofFindNodeByPhandle t phandle = some (some node) ∧
    ∃ prop, ofFindProperty (t.node node).device cellsName = some prop ∧ 4 ≤ prop.value.length ∧
      count = cell 0 prop.value

/-- The cells fall into these groups, up to their end or (`false`) up to a group
whose node, number of arguments or arguments are missing. -/
inductive PhandleGroups (t : NodeTree) (cellsName : CString) : List UInt32 → List PhandleGroup → Bool → Prop
  | done : PhandleGroups t cellsName [] [] true
  | empty {cells groups whole} : PhandleGroups t cellsName cells groups whole →
      PhandleGroups t cellsName (0 :: cells) (.empty :: groups) whole
  | entry {phandle node count args cells groups whole} : phandle ≠ 0 → PhandleTarget t cellsName phandle node count →
      args.length = count.toNat → PhandleGroups t cellsName cells groups whole →
      PhandleGroups t cellsName (phandle :: (args ++ cells)) (.entry node args :: groups) whole
  | malformed {phandle cells} : phandle ≠ 0 →
      (∀ node count, PhandleTarget t cellsName phandle node count → cells.length < count.toNat) →
      PhandleGroups t cellsName (phandle :: cells) [] false

/-- What is returned for a group. -/
def PhandleGroup.result (outArgs : Bool) : PhandleGroup → Int × Option PhandleArgs
  | .empty => (-ENOENT, none)
  | .entry node args => (0, if outArgs then some ⟨node, args.take maxPhandleArgs⟩ else none)

/-! ## Reading cells -/

section
variable {value : Bytes}

theorem cellsOf_length (value : Bytes) : (cellsOf value).length = value.length / 4 := by
  rw [cellsOf, List.length_map, List.length_range]

theorem cellAt_eq (value : Bytes) (i : Nat) : cellAt value i = (cellsOf value)[i]? := by
  rw [cellAt, cellsOf, List.getElem?_map]
  by_cases h : i < value.length / 4
  · rw [if_pos (by omega), List.getElem?_range h]
    rfl
  · rw [if_neg (by omega), List.getElem?_eq_none (by rw [List.length_range]; omega)]
    rfl

theorem cellAt_of_drop {list : Nat} {c : UInt32} {cells : List UInt32} (h : (cellsOf value).drop list = c :: cells) :
    list < value.length / 4 ∧ cellAt value list = some c ∧ (cellsOf value).drop (list + 1) = cells := by
  have hlen := congrArg List.length h
  rw [List.length_drop, cellsOf_length, List.length_cons] at hlen
  refine ⟨by omega, ?_, ?_⟩
  · rw [cellAt_eq, ← List.head?_drop, h, List.head?_cons]
  · rw [← List.drop_drop, h, List.drop_one, List.tail_cons]

theorem readCells_of_drop {count : Nat} : ∀ {list : Nat} {args cells : List UInt32},
    (cellsOf value).drop list = args ++ cells → count ≤ args.length →
    readCells value list count = some (args.take count) := by
  induction count with
  | zero => exact fun _ _ => rfl
  | succ count ih =>
    intro list args cells h hcount
    cases args with
    | nil => cases hcount
    | cons c args =>
      obtain ⟨-, hcell, hrest⟩ := cellAt_of_drop h
      rw [readCells, hcell, ih hrest (Nat.le_of_succ_le_succ hcount)]
      rfl

end

/-! ## The loop and the groups -/

section
variable {t : NodeTree} {root : Nat} {order : List Nat} {cellsName : CString}

/-- The node and its arguments are found where they belong. -/
theorem PhandleTarget.provider {phandle : UInt32} {node : Nat} {count : UInt32}
    (h : PhandleTarget t cellsName phandle node count) {listEnd list : Nat} (hfits : list + count.toNat ≤ listEnd) :
    phandleProvider t cellsName listEnd list phandle = some (.ok (node, count)) := by
  obtain ⟨hfind, prop, hprop, hlen, rfl⟩ := h
  rw [phandleProvider, hfind]
  simp only [Option.bind_eq_bind, Option.bind_some, ofPropertyReadU32, ofFindPropertyValueOfSize, hprop,
    if_neg (not_lt.2 hlen)]
  exact congrArg some (if_neg (not_lt.2 hfits))

theorem NodeTree.WellFormed.provider_error (h : t.WellFormed root order) {phandle : UInt32} {listEnd list : Nat}
    (hnot : ∀ node count, PhandleTarget t cellsName phandle node count → listEnd < list + count.toNat) :
    phandleProvider t cellsName listEnd list phandle = some (.error (-EINVAL)) := by
  rw [phandleProvider, h.findNodeByPhandle]
  simp only [Option.bind_eq_bind, Option.bind_some]
  cases hfind : order.find? fun x => (t.node x).phandle = phandle with
  | none => rfl
  | some node =>
    have hfound : ofFindNodeByPhandle t phandle = some (some node) := by rw [h.findNodeByPhandle, hfind]
    simp only [ofPropertyReadU32, ofFindPropertyValueOfSize]
    cases hprop : ofFindProperty (t.node node).device cellsName with
    | none => rfl
    | some prop =>
      by_cases hlen : prop.value.length < 4
      · simp only [if_pos hlen]
        rfl
      · simp only [if_neg hlen]
        exact congrArg some (if_pos (hnot node _ ⟨hfound, prop, hprop, not_lt.1 hlen, rfl⟩))

/-- What is returned behind `curIndex` groups: for the group with the index, for
the end of the cells, or for the group that is malformed. -/
def groupsResult (index : Int) (outArgs : Bool) : Int → List PhandleGroup → Bool → Int × Option PhandleArgs
  | curIndex, [], true => (if index < 0 then curIndex else -ENOENT, none)
  | _, [], false => (-EINVAL, none)
  | curIndex, group :: groups, whole =>
    if curIndex = index then group.result outArgs else groupsResult index outArgs (curIndex + 1) groups whole

theorem NodeTree.WellFormed.phandleArgsLoop (h : t.WellFormed root order) {value : Bytes} {index : Int} {outArgs : Bool}
    {cells : List UInt32} {groups : List PhandleGroup} {whole : Bool}
    (hgroups : PhandleGroups t cellsName cells groups whole) :
    ∀ {fuel list : Nat} {curIndex : Int}, (cellsOf value).drop list = cells → cells.length < fuel →
      phandleArgsLoop t value cellsName index outArgs fuel list curIndex =
        some (groupsResult index outArgs curIndex groups whole) := by
  induction hgroups with
  | done =>
    intro fuel list curIndex heq hfuel
    obtain ⟨fuel, rfl⟩ : ∃ n, fuel = n + 1 := ⟨fuel - 1, by omega⟩
    have hend : value.length / 4 ≤ list := by
      rw [← cellsOf_length]
      exact List.drop_eq_nil_iff.1 heq
    rw [DtUtils.phandleArgsLoop, if_neg (not_lt.2 hend)]
    rfl
  | empty _ ih =>
    intro fuel list curIndex heq hfuel
    obtain ⟨fuel, rfl⟩ : ∃ n, fuel = n + 1 := ⟨fuel - 1, by omega⟩
    obtain ⟨hlt, hcell, hrest⟩ := cellAt_of_drop heq
    rw [DtUtils.phandleArgsLoop, if_pos hlt, hcell, groupsResult]
    simp only [Option.bind_eq_bind, Option.bind_some, if_true]
    split
    · rfl
    · exact ih hrest (Nat.lt_of_succ_lt_succ hfuel)
  | @entry phandle node count args cells groups whole hphandle htarget hargs _ ih =>
    intro fuel list curIndex heq hfuel
    obtain ⟨fuel, rfl⟩ : ∃ n, fuel = n + 1 := ⟨fuel - 1, by omega⟩
    obtain ⟨hlt, hcell, hrest⟩ := cellAt_of_drop heq
    have hlen := congrArg List.length hrest
    rw [List.length_drop, cellsOf_length, List.length_append] at hlen
    have hprovider : phandleProvider t cellsName (value.length / 4) (list + 1) phandle = some (.ok (node, count)) :=
      htarget.provider (by omega)
    rw [DtUtils.phandleArgsLoop, if_pos hlt, hcell, groupsResult]
    simp only [Option.bind_eq_bind, Option.bind_some, if_neg hphandle, hprovider]
    split
    · cases outArgs with
      | false => rfl
      | true =>
        simp only [if_true, readCells_of_drop hrest (by omega : min count.toNat maxPhandleArgs ≤ args.length),
          Option.bind_some, PhandleGroup.result]
        rw [← hargs, min_comm, ← List.take_eq_take_min]
        rfl
    · refine ih ?_ ?_
      · rw [← List.drop_drop, hrest, ← hargs, List.drop_left]
      · rw [List.length_cons, List.length_append] at hfuel
        omega
  | @malformed phandle cells hphandle hnot =>
    intro fuel list curIndex heq hfuel
    obtain ⟨fuel, rfl⟩ : ∃ n, fuel = n + 1 := ⟨fuel - 1, by omega⟩
    obtain ⟨hlt, hcell, hrest⟩ := cellAt_of_drop heq
    have hlen := congrArg List.length hrest
    rw [List.length_drop, cellsOf_length] at hlen
    have hprovider : phandleProvider t cellsName (value.length / 4) (list + 1) phandle = some (.error (-EINVAL)) := by
      refine h.provider_error fun node count htarget => ?_
      have := hnot node count htarget
      omega
    rw [DtUtils.phandleArgsLoop, if_pos hlt, hcell]
    simp only [Option.bind_eq_bind, Option.bind_some, if_neg hphandle, hprovider]
    rfl

/-- Any cells fall into groups. -/
theorem exists_phandleGroups (t : NodeTree) (cellsName : CString) :
    ∀ {n : Nat} {cells : List UInt32}, cells.length < n → ∃ groups whole, PhandleGroups t cellsName cells groups whole
  | 0, _, hlt => absurd hlt (Nat.not_lt_zero _)
  | n + 1, cells, hlt => by
    cases cells with
    | nil => exact ⟨[], true, .done⟩
    | cons phandle cells =>
      rw [List.length_cons] at hlt
      by_cases hphandle : phandle = 0
      · obtain ⟨groups, whole, hgroups⟩ := @exists_phandleGroups t cellsName n cells (by omega)
        subst hphandle
        exact ⟨_, whole, .empty hgroups⟩
      by_cases htarget : ∃ node count, PhandleTarget t cellsName phandle node count ∧ count.toNat ≤ cells.length
      · obtain ⟨node, count, htarget, hfits⟩ := htarget
        obtain ⟨groups, whole, hgroups⟩ :=
          @exists_phandleGroups t cellsName n (cells.drop count.toNat) (by rw [List.length_drop]; omega)
        have hentry := PhandleGroups.entry hphandle htarget (List.length_take_of_le hfits) hgroups
        rw [List.take_append_drop] at hentry
        exact ⟨_, whole, hentry⟩
      · refine ⟨[], false, .malformed hphandle fun node count h => ?_⟩
        exact not_le.1 fun hfits => htarget ⟨node, count, h, hfits⟩

theorem NodeTree.WellFormed.parsePhandleWithArgs (h : t.WellFormed root order) {np : Nat} {listName : CString}
    {value : Bytes} (hvalue : ofGetProperty (t.node np).device listName = some value) {groups : List PhandleGroup}
    {whole : Bool} (hgroups : PhandleGroups t cellsName (cellsOf value) groups whole) (index : Int) (outArgs : Bool) :
    parsePhandleWithArgs t np listName cellsName index outArgs = some (groupsResult index outArgs 0 groups whole) := by
  rw [DtUtils.parsePhandleWithArgs, hvalue]
  refine h.phandleArgsLoop hgroups rfl ?_
  rw [cellsOf_length]
  exact Nat.lt_succ_self _

/-- Nothing has a negative index, so that all groups are counted. -/
theorem groupsResult_count (outArgs : Bool) (whole : Bool) : ∀ (groups : List PhandleGroup) {curIndex : Int},
    0 ≤ curIndex → (groupsResult (-1) outArgs curIndex groups whole).1 =
      if whole then curIndex + groups.length else -EINVAL
  | [], curIndex, _ => by
    cases whole with
    | false => rfl
    | true => simp [groupsResult]
  | group :: groups, curIndex, h0 => by
    rw [groupsResult, if_neg (by omega), groupsResult_count outArgs whole groups (by omega), List.length_cons]
    split
    · omega
    · rfl

theorem groupsResult_index (outArgs : Bool) (whole : Bool) : ∀ (groups : List PhandleGroup) (i : Nat) (curIndex : Int),
    0 ≤ curIndex → groupsResult (curIndex + i) outArgs curIndex groups whole =
      match groups[i]? with
      | some group => group.result outArgs
      | none => (if whole then -ENOENT else -EINVAL, none)
  | [], i, curIndex, h0 => by
    cases whole with
    | false => rfl
    | true => simp [groupsResult, if_neg (show ¬ curIndex + (i : Int) < 0 by omega)]
  | group :: groups, 0, curIndex, h0 => by
    rw [groupsResult, if_pos (by omega)]
    rfl
  | group :: groups, i + 1, curIndex, h0 => by
    rw [groupsResult, if_neg (by omega), show curIndex + ((i + 1 : Nat) : Int) = curIndex + 1 + i by omega,
      groupsResult_index outArgs whole groups i (curIndex + 1) (by omega), List.getElem?_cons_succ]

end

/-- **Counting and indexing agree**: the cells of a property fall into groups
up to their end or up to one that is malformed. The count is the number of
groups, or an error if one is malformed; an index leads to the target and the
first arguments of its group, and to an error if the group is empty, the index
is behind the groups or a malformed group comes first. No cell outside the
property is read. -/
theorem phandle_lists_agree {t : NodeTree} {root : Nat} {order : List Nat} (h : t.WellFormed root order) {np : Nat}
    {listName : CString} {value : Bytes} (hvalue : ofGetProperty (t.node np).device listName = some value)
    (cellsName : CString) :
    (∃ groups whole, PhandleGroups t cellsName (cellsOf value) groups whole) ∧
    ∀ groups whole, PhandleGroups t cellsName (cellsOf value) groups whole →
      ofCountPhandleWithArgs t np listName cellsName = some (if whole then (groups.length : Int) else -EINVAL) ∧
      ∀ outArgs,
        (∀ i : Nat, ofParsePhandleWithArgs t np listName cellsName i outArgs = some
          (match groups[i]? with
          | some .empty => (-ENOENT, none)
          | some (.entry node args) => (0, if outArgs then some ⟨node, args.take maxPhandleArgs⟩ else none)
          | none => (if whole then -ENOENT else -EINVAL, none))) ∧
        ∀ index < 0, ofParsePhandleWithArgs t np listName cellsName index outArgs = some (-EINVAL, none) := by
  refine ⟨exists_phandleGroups t cellsName (Nat.lt_succ_self _), fun groups whole hgroups => ⟨?_, fun outArgs =>
    ⟨fun i => ?_, fun index hindex => ?_⟩⟩⟩
  · rw [ofCountPhandleWithArgs, h.parsePhandleWithArgs hvalue hgroups, Option.map_some,
      groupsResult_count _ _ _ (le_refl 0), zero_add]
  · have hresult := groupsResult_index outArgs whole groups i 0 (le_refl 0)
    rw [zero_add] at hresult
    rw [ofParsePhandleWithArgs, if_neg (by omega), h.parsePhandleWithArgs hvalue hgroups, hresult]
    cases groups[i]? with
    | none => rfl
    | some group =>
      cases group with
      | empty => rfl
      | entry node args => rfl
  · rw [ofParsePhandleWithArgs, if_pos hindex]

/-- A root with a list, and the node that it points to. The cells are the node
and its argument, a 0, and a phandle that no node has. -/
def listTree : DeviceNode :=
  .node .empty 0 [⟨cstr "list", [2, 5, 0, 3].flatMap (beBytes 4)⟩]
    [.node (cstr "c") 2 [⟨cstr "phandle", beBytes 4 2⟩, ⟨cstr "#cells", beBytes 4 1⟩] []]

theorem phandle_lists_agree_listTree : ∃ groups whole,
    PhandleGroups (loadTree nextAddress listTree) (cstr "#cells") [2, 5, 0, 3] groups whole ∧
      ofCountPhandleWithArgs (loadTree nextAddress listTree) 0 (cstr "list") (cstr "#cells") =
        some (if whole then (groups.length : Int) else -EINVAL) := by
  have hown : listTree.All OwnPhandle := ⟨rfl, ⟨rfl, trivial⟩, trivial⟩
  obtain ⟨root, order, hwf, -⟩ := loadTree_spec nextAddress hown
  have hvalue : ofGetProperty ((loadTree nextAddress listTree).node 0).device (cstr "list") =
      some ([2, 5, 0, 3].flatMap (beBytes 4)) := by decide +kernel
  have hcells : cellsOf ([2, 5, 0, 3].flatMap (beBytes 4)) = [2, 5, 0, 3] := by decide +kernel
  obtain ⟨⟨groups, whole, hgroups⟩, hall⟩ := phandle_lists_agree hwf hvalue (cstr "#cells")
  exact ⟨groups, whole, hcells ▸ hgroups, (hall groups whole hgroups).1⟩

example : ofParsePhandleWithArgs (loadTree nextAddress listTree) 0 (cstr "list") (cstr "#cells") 0 true =
    some (0, some ⟨1, [5]⟩) := by decide +kernel

end DtUtils
