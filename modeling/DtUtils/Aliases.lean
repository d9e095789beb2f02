/-
The `/aliases` of a device tree: `of_alias_scan`, `of_alias_get`,
`of_find_node_by_path_or_alias`, and the part of `state_get` that looks for the
nodes and the names of the states. Each `state_get` reads a tree of its own, but
the aliases stay those of the first one. `none` results are accesses outside an
object.

The name that a state gets leads to its node again, whatever it was looked for
by, and two states get one name only where they are one node
(`states_named`).
-/
import Mathlib.Data.List.DropRight
import Mathlib.Data.List.ReduceOption
import DtUtils.NodePaths
import DtUtils.Setters

namespace DtUtils
open Lib

def EBUSY : Int := 16

/-! ## The functions -/

/-- `strcasecmp` of a string and a value finds no difference. It stops at the
first one. -/
def sameButCaseValue : Bytes → Bytes → Option Bool
  | _, [] => none
  | [], c :: _ => some (c = 0)
  | b :: s, c :: value => if toLower b = toLower c then sameButCaseValue s value else some false

/-- `of_find_node_by_path` of a property's value -/
def ofFindNodeByValue (t : NodeTree) : Bytes → Option (Option Nat)
  | [] => none
  | c :: p =>
    if c ≠ 47 then some none
    else do
      let _ ← strlen p
      ofFindNodeByPathFrom t none (CString.of (c :: p))

/-- `struct alias_prop` -/
structure AliasProp where
  name : CString
  np : Nat
  stem : Bytes
  id : Int

/-- `of_aliases` and `aliases_lookup` -/
structure Aliases where
  ofAliases : Option Nat
  lookup : List AliasProp

/-- The stem of an alias and the digits behind it. Without a stem the byte
before the name is looked at. -/
def aliasStem (name : CString) : Option (Bytes × Bytes) :=
  let stem := name.1.rdropWhile (isDigit 10)
  if stem = [] then none else some (stem, name.1.rtakeWhile (isDigit 10))

/-- `strtol` of digits, as an `int` -/
def aliasId (digits : Bytes) : Int := cInt (min (strtoul digits 10).1 (2 ^ 63 - 1) : Nat)

/-- What the loop of `of_alias_scan` adds for a property. -/
def aliasOf (t : NodeTree) (pp : Property) : Option (Option AliasProp) :=
  if pp.name = cstr "name" ∨ pp.name = cstr "phandle" ∨ pp.name = cstr "linux,phandle" then some none
  else do
    match ← ofFindNodeByValue t pp.value with
    | none => return none
    | some np =>
      let (stem, digits) ← aliasStem pp.name
      return if aliasId digits < 0 then none else some ⟨pp.name, np, stem, aliasId digits⟩

/-- `of_alias_scan` -/
def ofAliasScan (t : NodeTree) (old : Aliases) : Option Aliases :=
  match t.rootNode with
  | none => some { old with lookup := [] }
  | some _ => do
    match ← ofFindNodeByPathFrom t none (cstr "/aliases") with
    | none => return ⟨none, []⟩
    | some np => return ⟨some np, (← (t.node np).properties.mapM (aliasOf t)).reduceOption⟩

/-- `of_alias_get` of a node, with the aliases of the tree `t` -/
def ofAliasGet (t : NodeTree) (a : Aliases) (np : TreeNode) : Option (Option CString) := do
  let aliases ← a.ofAliases
  let pp ← (t.node aliases).properties.findM? fun pp => sameButCaseValue np.fullName.1 pp.value
  return pp.map (·.name)

/-- `of_find_node_by_alias` -/
def ofFindNodeByAlias (t : NodeTree) (root : Option Nat) (str : CString) : Option (Option Nat) := do
  match ← ofFindNodeByPathFrom t root (cstr "/aliases") with
  | none => return none
  | some aliasnp =>
    match ofPropertyReadString (t.node aliasnp).device str with
    | .error _ => return none
    | .ok path => ofFindNodeByPathFrom t root path

/-- `of_find_node_by_path_or_alias` -/
def ofFindNodeByPathOrAlias (t : NodeTree) (root : Option Nat) (str : CString) : Option (Option Nat) :=
  if str.1.head? = some 47 then ofFindNodeByPathFrom t root str else ofFindNodeByAlias t root str

/-- `of_set_root_node` of a tree, given the tree that is the root node's and
its aliases. -/
def ofSetRootNode (roots : Option (NodeTree × Aliases)) (t : NodeTree) : Option ((NodeTree × Aliases) × Int) :=
  match roots with
  | some roots => some (roots, -EBUSY)
  | none => (ofAliasScan t ⟨none, []⟩).map fun a => ((t, a), 0)

/-- The part of `state_get` that looks for the state's node in a tree. -/
def stateGetNode (t : NodeTree) : Option CString → Option (Option Nat)
  | some name => ofFindNodeByPathOrAlias t t.rootNode name
  | none => do
    match ← ofFindNodeByPathOrAlias t t.rootNode (cstr "state") with
    | some node => return some node
    | none => ofFindNodeByPathOrAlias t t.rootNode (cstr "/state")

/-- `state_get` in a tree that it read, as far as to the state's node and the
name that `state_new_from_node` gives it. -/
def stateGetName (roots : Option (NodeTree × Aliases)) (t : NodeTree) (name : Option CString) :
    Option ((NodeTree × Aliases) × Except Int (Nat × CString)) := do
  let (roots, _) ← ofSetRootNode roots t
  match ← stateGetNode t name with
  | none => return (roots, .error (-ENOENT))
  | some node =>
    match ← ofAliasGet roots.1 roots.2 (t.node node) with
    | none => return (roots, .error (-EINVAL))
    | some name => return (roots, .ok (node, name))

/-- The loop of `main` over the states that the command line names, each with
the tree that is read for it. -/
def stateGetNames : Option (NodeTree × Aliases) → List (NodeTree × Option CString) →
    Option (List (Except Int (Nat × CString)))
  | _, [] => some []
  | roots, (t, name) :: gets => do
    match ← stateGetName roots t name with
    | (_, .error e) => return [.error e]
    | (roots, .ok r) => return .ok r :: (← stateGetNames (some roots) gets)

/-! ## Names and paths up to case -/

theorem toLower_eq_iff {b : UInt8} (hb : b = 0 ∨ b = 47) (c : UInt8) : toLower c = b ↔ c = b := by
  rw [toLower]
  split
  · next h =>
    have hlow : 65 ≤ c.toNat ∧ c.toNat ≤ 90 := h
    have hsum : (c + 32).toNat = c.toNat + 32 := by
      rw [UInt8.toNat_add]
      exact Nat.mod_eq_of_lt (by simp; omega)
    rw [← UInt8.toNat_inj, ← UInt8.toNat_inj, hsum]
    rcases hb with rfl | rfl <;> simp <;> omega
  · exact Iff.rfl

theorem map_takeWhile_toLower {b : UInt8} (hb : b = 0 ∨ b = 47) (p : Bytes) :
    (p.takeWhile (· ≠ b)).map toLower = (p.map toLower).takeWhile (· ≠ b) := by
  rw [List.takeWhile_map]
  congr 2
  funext c
  simp [toLower_eq_iff hb]

theorem map_dropWhile_toLower (p : Bytes) :
    (p.dropWhile (· ≠ 47)).map toLower = (p.map toLower).dropWhile (· ≠ 47) := by
  rw [List.dropWhile_map]
  congr 2
  funext c
  simp [toLower_eq_iff (.inr rfl)]

theorem sameButCase_iff {s s' : CString} : sameButCase s s' = true ↔ s.1.map toLower = s'.1.map toLower := by
  rw [sameButCase, decide_eq_true_iff]

/-- Against a string that ends inside its value nothing else is read. -/
theorem sameButCaseValue_eq {s value : Bytes} (hs : (0 : UInt8) ∉ s) (hvalue : (0 : UInt8) ∈ value) :
    sameButCaseValue s value = some (decide (s.map toLower = (CString.of value).1.map toLower)) := by
  rw [CString.of]
  fun_induction sameButCaseValue s value with
  | case1 s => simp at hvalue
  | case2 c value =>
    by_cases hc : c = 0 <;> simp [hc]
  | case3 b s c value heq ih =>
    have hb : b ≠ 0 := fun hb => hs (by simp [hb])
    have hc : c ≠ 0 := fun hc => hb ((toLower_eq_iff (.inl rfl) b).1 (heq.trans ((toLower_eq_iff (.inl rfl) c).2 hc)))
    have hs' : (0 : UInt8) ∉ s := fun h => hs (List.mem_cons_of_mem _ h)
    have hvalue' : (0 : UInt8) ∈ value := by simpa [hc.symm] using hvalue
    rw [ih hs' hvalue']
    simp [hc, heq]
  | case4 b s c value hne =>
    by_cases hc : c = 0
    · simp [hc]
    · simp [hc, hne]

section
variable {t : NodeTree}

theorem ofGetChildByName_congr {node : Nat} {name name' : CString} (h : name.1.map toLower = name'.1.map toLower) :
    ofGetChildByName t node name = ofGetChildByName t node name' := by
  rw [ofGetChildByName, ofGetChildByName]
  refine find?_congr fun child _ => ?_
  rw [sameButCase, sameButCase, h]

theorem cutAtSlash_congr {p q : Bytes} (h : p.map toLower = q.map toLower) :
    (cutAtSlash p).1.1.map toLower = (cutAtSlash q).1.1.map toLower ∧
    (cutAtSlash p).2.map (List.map toLower) = (cutAtSlash q).2.map (List.map toLower) := by
  have hrest (p : Bytes) : (cutAtSlash p).2.map (List.map toLower) = ((p.map toLower).dropWhile (· ≠ 47)).tail? := by
    rw [← map_dropWhile_toLower, cutAtSlash]
    cases p.dropWhile (· ≠ 47) <;> rfl
  refine ⟨?_, by rw [hrest, hrest, h]⟩
  simp only [cutAtSlash, CString.of, map_takeWhile_toLower (.inl rfl), map_takeWhile_toLower (.inr rfl), h]

theorem findPathLoop_congr : ∀ {fuel start : Nat} {p q : Bytes}, p.map toLower = q.map toLower →
    findPathLoop t fuel start p = findPathLoop t fuel start q
  | 0, _, _, _, _ => rfl
  | fuel + 1, start, p, q, h => by
    obtain ⟨hname, hrest⟩ := cutAtSlash_congr h
    have hnil : p = [] ↔ q = [] := by rw [← List.map_eq_nil_iff (f := toLower), h, List.map_eq_nil_iff]
    simp only [findPathLoop, ofGetChildByName_congr hname, hnil]
    split
    · rfl
    split
    · rfl
    next child _ =>
    cases hp : (cutAtSlash p).2 with
    | none =>
      rw [hp, Option.map_none, eq_comm, Option.map_eq_none_iff] at hrest
      rw [hrest]
    | some p' =>
      rw [hp, Option.map_some, eq_comm, Option.map_eq_some_iff] at hrest
      obtain ⟨q', hq, heq⟩ := hrest
      rw [hq]
      exact findPathLoop_congr heq.symm

theorem ofFindNodeByPathFrom_relative {start : Option Nat} {path : CString} (h : path.1.head? ≠ some 47) :
    ofFindNodeByPathFrom t start path = some none := by
  rw [ofFindNodeByPathFrom]
  split
  · next hp => simp [hp] at h
  · rfl

theorem ofFindNodeByPathFrom_congr {start : Option Nat} {path path' : CString} (h : sameButCase path path' = true) :
    ofFindNodeByPathFrom t start path = ofFindNodeByPathFrom t start path' := by
  rw [sameButCase_iff] at h
  have hhead : path.1.head? = some 47 ↔ path'.1.head? = some 47 := by
    have hone (s : Bytes) : s.head? = some 47 ↔ (s.map toLower).head? = some 47 := by
      cases s <;> simp [toLower_eq_iff (.inr rfl)]
    rw [hone, h, ← hone]
  by_cases hslash : path.1.head? = some 47
  · obtain ⟨p, hp⟩ := List.head?_eq_some_iff.1 hslash
    obtain ⟨q, hq⟩ := List.head?_eq_some_iff.1 (hhead.1 hslash)
    have hmap : p.map toLower = q.map toLower := by simpa [hp, hq] using h
    have hlen : p.length = q.length := by simpa using congrArg List.length hmap
    rw [ofFindNodeByPathFrom, ofFindNodeByPathFrom, hp, hq]
    cases start.or t.rootNode with
    | none => rfl
    | some s =>
      simp only [hlen]
      exact findPathLoop_congr hmap
  · rw [ofFindNodeByPathFrom_relative hslash, ofFindNodeByPathFrom_relative (fun h' => hslash (hhead.2 h'))]

theorem findPathLoop_total : ∀ {fuel start : Nat} {p : Bytes}, p.length < fuel →
    ∃ found, findPathLoop t fuel start p = some found
  | 0, _, _, h => absurd h (Nat.not_lt_zero _)
  | fuel + 1, start, p, h => by
    rw [findPathLoop]
    split
    · exact ⟨_, rfl⟩
    split
    · exact ⟨_, rfl⟩
    next child _ =>
    cases hrest : (cutAtSlash p).2 with
    | none => exact ⟨_, rfl⟩
    | some rest =>
      have hlen := cutAtSlash_length hrest
      exact findPathLoop_total (by omega)

theorem ofFindNodeByPathFrom_total (start : Option Nat) (path : CString) :
    ∃ found, ofFindNodeByPathFrom t start path = some found := by
  rw [ofFindNodeByPathFrom]
  split
  · exact findPathLoop_total (Nat.lt_succ_self _)
  · exact ⟨_, rfl⟩

theorem cutAtSlash_append {p : Bytes} (h0 : (0 : UInt8) ∉ p) :
    p = (cutAtSlash p).1.1 ++ ((cutAtSlash p).2.map (47 :: ·)).getD [] := by
  have hname : (CString.of (p.takeWhile (· ≠ 47))).1 = p.takeWhile (· ≠ 47) := by
    rw [CString.of, List.takeWhile_eq_self_iff]
    intro b hb
    simpa using ne_of_mem_of_not_mem ((List.takeWhile_prefix _).subset hb) h0
  rw [cutAtSlash, hname]
  nth_rewrite 1 [← List.takeWhile_append_dropWhile (p := (· ≠ 47)) (l := p)]
  congr 1
  cases hdrop : p.dropWhile (· ≠ 47) with
  | nil => rfl
  | cons c rest =>
    have hc := List.head?_dropWhile_not (· ≠ 47) p
    rw [hdrop] at hc
    have hc' : c = 47 := by simpa using hc
    rw [hc']
    rfl

/-- A path without a slash at its end that leads to a node is the node's full
name but for case. -/
theorem NodeTree.WellFormed.findPathLoop_fullName {root : Nat} {order : List Nat} (h : t.WellFormed root order) :
    ∀ {fuel start x : Nat} {p : Bytes}, start ∈ root :: order → (0 : UInt8) ∉ p → p ≠ [] → p.getLast? ≠ some 47 →
      findPathLoop t fuel start p = some (some x) →
      (t.node x).fullName.1.map toLower = ((t.node start).fullName.1 ++ 47 :: p).map toLower
  | 0, _, _, _, _, _, _, _, hfind => by cases hfind
  | fuel + 1, start, x, p, hstart, h0, hne, hlast, hfind => by
    have hcut := cutAtSlash_append h0
    rw [findPathLoop, if_neg hne] at hfind
    cases hchild : ofGetChildByName t start (cutAtSlash p).1 with
    | none =>
      rw [hchild] at hfind
      cases hfind
    | some child =>
      obtain ⟨hin, hparent⟩ := (h.children start hstart child).1 (List.mem_of_find?_eq_some hchild)
      have hname : (t.node child).name.1.map toLower = (cutAtSlash p).1.1.map toLower :=
        sameButCase_iff.1 (by simpa using List.find?_some hchild)
      have hslash : (cstr "/").1 = [47] := by decide
      have hpath : (t.node child).fullName.1.map toLower =
          ((t.node start).fullName.1 ++ 47 :: (cutAtSlash p).1.1).map toLower := by
        rw [h.path child hin start hparent]
        simp [CString.append, hslash, hname]
      simp only [hchild] at hfind
      cases hrest : (cutAtSlash p).2 with
      | none =>
        simp only [hrest, Option.some.injEq] at hfind
        rw [hrest, Option.map_none, Option.getD_none, List.append_nil] at hcut
        rw [← hfind, hpath, ← hcut]
      | some rest =>
        simp only [hrest] at hfind
        rw [hrest, Option.map_some, Option.getD_some] at hcut
        have hrestne : rest ≠ [] := by
          rintro rfl
          rw [hcut] at hlast
          simp at hlast
        have hlast' : rest.getLast? ≠ some 47 := by
          rw [hcut, List.getLast?_append_of_ne_nil _ (by simp)] at hlast
          rwa [List.getLast?_cons_of_ne_nil hrestne] at hlast
        have h0' : (0 : UInt8) ∉ rest := fun hmem => h0 (by rw [hcut]; simp [hmem])
        rw [h.findPathLoop_fullName (List.mem_cons_of_mem _ hin) h0' hrestne hlast' hfind]
        nth_rewrite 1 [hcut]
        rw [List.map_append, hpath]
        simp

theorem NodeTree.WellFormed.find_fullName_of_path {root : Nat} {order : List Nat} (h : t.WellFormed root order) {x : Nat}
    {path : CString} (hlast : path.1.getLast? ≠ some 47) (hfind : ofFindNodeByPathFrom t none path = some (some x)) :
    sameButCase (t.node x).fullName path = true := by
  rw [ofFindNodeByPathFrom, Option.none_or, h.rootNode] at hfind
  split at hfind
  · next start p hstart hpath =>
    obtain rfl := Option.some.inj hstart
    have h0 : (0 : UInt8) ∉ p := fun hmem => path.2 (by rw [hpath]; exact List.mem_cons_of_mem _ hmem)
    have hne : p ≠ [] := by
      rintro rfl
      rw [hpath] at hlast
      simp at hlast
    rw [hpath, List.getLast?_cons_of_ne_nil hne] at hlast
    rw [sameButCase_iff, h.findPathLoop_fullName List.mem_cons_self h0 hne hlast hfind, h.rootPath, hpath]
    rfl
  · cases hfind

end

/-! ## The names of states -/

/-- Aliases that are in order: names of their own that are neither paths nor
numbers, and strings. -/
structure AliasesSound (properties : List Property) : Prop where
  nodup : (properties.map (·.name)).Nodup
  names : ∀ pp ∈ properties, pp.name.1.head? ≠ some 47 ∧ ∃ c ∈ pp.name.1, ¬ isDigit 10 c
  values : ∀ pp ∈ properties, (0 : UInt8) ∈ pp.value

/-- A tree that was built, with names that tell its nodes apart, and its
aliases. -/
structure Aliased (properties : List Property) (t : NodeTree) : Prop where
  built : ∃ root ops, (treeSystem root).Run ops t
  named : t.WellNamed
  aliases : ∃ np, ofFindNodeByPathFrom t none (cstr "/aliases") = some (some np) ∧ (t.node np).properties = properties

/-- The first alias that has this full name for its value. -/
def aliasFor (properties : List Property) (fullName : CString) : Option Property :=
  properties.find? fun pp => sameButCase fullName (CString.of pp.value)

/-- What `state_get` makes of the node that it finds. -/
def namedState (properties : List Property) (t : NodeTree) : Option Nat → Except Int (Nat × CString)
  | none => .error (-ENOENT)
  | some node =>
    match aliasFor properties (t.node node).fullName with
    | none => .error (-EINVAL)
    | some pp => .ok (node, pp.name)

/-- The aliases are these properties. -/
def Rooted (properties : List Property) (roots : NodeTree × Aliases) : Prop :=
  ∃ np, roots.2.ofAliases = some np ∧ (roots.1.node np).properties = properties

theorem aliasFor_congr {properties : List Property} {s s' : CString} (h : sameButCase s s' = true) :
    aliasFor properties s = aliasFor properties s' := by
  rw [sameButCase_iff] at h
  simp only [aliasFor, sameButCase, h]

theorem findM?_eq_find? {α : Type} {test : α → Option Bool} {p : α → Bool} :
    ∀ {xs : List α}, (∀ x ∈ xs, test x = some (p x)) → xs.findM? test = some (xs.find? p)
  | [], _ => rfl
  | x :: xs, h => by
    rw [List.forall_mem_cons] at h
    rw [List.findM?, h.1, List.find?_cons]
    cases p x with
    | true => rfl
    | false => exact findM?_eq_find? h.2

theorem mapM_total {α β : Type} {f : α → Option β} : ∀ {xs : List α}, (∀ x ∈ xs, ∃ y, f x = some y) →
    ∃ ys, xs.mapM f = some ys
  | [], _ => ⟨[], rfl⟩
  | x :: xs, h => by
    rw [List.forall_mem_cons] at h
    obtain ⟨⟨y, hy⟩, hxs⟩ := h
    obtain ⟨ys, hys⟩ := mapM_total hxs
    exact ⟨y :: ys, by rw [List.mapM_cons, hy, hys]; rfl⟩

section
variable {properties : List Property} {t : NodeTree}

theorem Aliased.rootNode (h : Aliased properties t) : ∃ root order, t.WellFormed root order ∧ t.rootNode = some root := by
  obtain ⟨root, ops, hrun⟩ := h.built
  obtain ⟨order, hwf⟩ := (treeSystem_invariant root).run hrun
  exact ⟨root, order, hwf, hwf.rootNode⟩

theorem aliasOf_total (h : AliasesSound properties) {pp : Property} (hpp : pp ∈ properties) :
    ∃ ap, aliasOf t pp = some ap := by
  have hvalue := h.values pp hpp
  obtain ⟨-, c, hc, hdigit⟩ := h.names pp hpp
  have hstem : pp.name.1.rdropWhile (isDigit 10) ≠ [] := fun hnil => hdigit (List.rdropWhile_eq_nil_iff.1 hnil c hc)
  obtain ⟨found, hfound⟩ : ∃ found, ofFindNodeByValue t pp.value = some found := by
    cases hv : pp.value with
    | nil => simp [hv] at hvalue
    | cons c p =>
      rw [ofFindNodeByValue]
      split
      · exact ⟨_, rfl⟩
      next hslash =>
      have hp : (0 : UInt8) ∈ p := by
        rcases List.mem_cons.1 (hv ▸ hvalue) with h0 | h0
        · exact absurd h0 (by rw [not_not.1 hslash]; decide)
        · exact h0
      obtain ⟨found, hfound⟩ := ofFindNodeByPathFrom_total (t := t) none (CString.of (c :: p))
      exact ⟨found, by simp [strlen, hp, hfound]⟩
  rw [aliasOf]
  split
  · exact ⟨_, rfl⟩
  · rw [hfound]
    cases found with
    | none => exact ⟨_, rfl⟩
    | some np => exact ⟨_, by simp only [aliasStem, if_neg hstem, Option.bind_eq_bind, Option.bind_some]; rfl⟩

theorem Aliased.setRootNode (h : Aliased properties t) (hsound : AliasesSound properties)
    {roots : Option (NodeTree × Aliases)} (hroots : ∀ r ∈ roots, Rooted properties r) :
    ∃ roots' ret, ofSetRootNode roots t = some (roots', ret) ∧ Rooted properties roots' := by
  cases roots with
  | some r => exact ⟨r, _, rfl, hroots r rfl⟩
  | none =>
    obtain ⟨root, order, hwf, hroot⟩ := h.rootNode
    obtain ⟨np, hnp, hproperties⟩ := h.aliases
    obtain ⟨lookup, hlookup⟩ := mapM_total fun pp hpp => aliasOf_total (t := t) hsound hpp
    refine ⟨(t, ⟨some np, lookup.reduceOption⟩), 0, ?_, np, rfl, hproperties⟩
    rw [ofSetRootNode, ofAliasScan, hroot]
    simp only [hnp, hproperties, hlookup, Option.bind_eq_bind, Option.bind_some]
    rfl

theorem ofAliasGet_eq (hsound : AliasesSound properties) {roots : NodeTree × Aliases} (hroots : Rooted properties roots)
    (np : TreeNode) : ofAliasGet roots.1 roots.2 np = some ((aliasFor properties np.fullName).map (·.name)) := by
  obtain ⟨al, hal, hproperties⟩ := hroots
  have hfind : properties.findM? (fun pp => sameButCaseValue np.fullName.1 pp.value) = some (aliasFor properties np.fullName) :=
    findM?_eq_find? fun pp hpp => sameButCaseValue_eq np.fullName.2 (hsound.values pp hpp)
  rw [ofAliasGet, hal]
  simp only [Option.bind_eq_bind, Option.bind_some, hproperties, hfind]
  rfl

theorem ofFindNodeByPathOrAlias_total (root : Option Nat) (str : CString) :
    ∃ found, ofFindNodeByPathOrAlias t root str = some found := by
  rw [ofFindNodeByPathOrAlias]
  split
  · exact ofFindNodeByPathFrom_total root str
  · obtain ⟨found, hfound⟩ := ofFindNodeByPathFrom_total (t := t) root (cstr "/aliases")
    rw [ofFindNodeByAlias, hfound]
    cases found with
    | none => exact ⟨_, rfl⟩
    | some np =>
      simp only [Option.bind_eq_bind, Option.bind_some]
      split
      · exact ⟨_, rfl⟩
      · exact ofFindNodeByPathFrom_total root _

theorem stateGetNode_total (name : Option CString) : ∃ node, stateGetNode t name = some node := by
  cases name with
  | some name => exact ofFindNodeByPathOrAlias_total _ name
  | none =>
    obtain ⟨node, hnode⟩ := ofFindNodeByPathOrAlias_total (t := t) t.rootNode (cstr "state")
    rw [stateGetNode, hnode]
    simp only [Option.bind_eq_bind, Option.bind_some]
    cases node with
    | some node => exact ⟨_, rfl⟩
    | none => exact ofFindNodeByPathOrAlias_total _ _

/-- A `state_get` finds its node in the tree that it reads and names it after
the aliases. -/
theorem Aliased.stateGetName (h : Aliased properties t) (hsound : AliasesSound properties)
    {roots : Option (NodeTree × Aliases)} (hroots : ∀ r ∈ roots, Rooted properties r) (name : Option CString) :
    ∃ roots' node, Rooted properties roots' ∧ stateGetNode t name = some node ∧
      stateGetName roots t name = some (roots', namedState properties t node) := by
  obtain ⟨roots', ret, hset, hrooted⟩ := h.setRootNode hsound hroots
  obtain ⟨node, hnode⟩ := stateGetNode_total (t := t) name
  refine ⟨roots', node, hrooted, hnode, ?_⟩
  rw [DtUtils.stateGetName, hset]
  simp only [Option.bind_eq_bind, Option.bind_some, hnode]
  cases node with
  | none => rfl
  | some node =>
    simp only [ofAliasGet_eq hsound hrooted, Option.bind_some, namedState]
    cases aliasFor properties (t.node node).fullName <;> rfl

theorem stateGetNames_eq (hsound : AliasesSound properties) : ∀ {gets : List (NodeTree × Option CString)}
    {roots : Option (NodeTree × Aliases)}, (∀ g ∈ gets, Aliased properties g.1) → (∀ r ∈ roots, Rooted properties r) →
    ∃ results, stateGetNames roots gets = some results ∧ ∀ g r, (g, r) ∈ gets.zip results →
      ∃ node, stateGetNode g.1 g.2 = some node ∧ r = namedState properties g.1 node
  | [], _, _, _ => ⟨[], rfl, by simp⟩
  | (t, name) :: gets, roots, htrees, hroots => by
    rw [List.forall_mem_cons] at htrees
    obtain ⟨roots', node, hrooted, hnode, hget⟩ := htrees.1.stateGetName hsound hroots name
    rw [stateGetNames, hget]
    simp only [Option.bind_eq_bind, Option.bind_some]
    cases hnamed : namedState properties t node with
    | error e =>
      refine ⟨[.error e], rfl, ?_⟩
      simp only [List.zip_cons_cons, List.zip_nil_right, List.mem_singleton, Prod.mk.injEq]
      rintro g r ⟨rfl, rfl⟩
      exact ⟨node, hnode, hnamed.symm⟩
    | ok found =>
      have hrooted' : ∀ r ∈ some roots', Rooted properties r := by simpa using hrooted
      obtain ⟨results, hresults, hall⟩ := stateGetNames_eq hsound htrees.2 hrooted'
      refine ⟨.ok found :: results, by simp [hresults], ?_⟩
      simp only [List.zip_cons_cons, List.mem_cons, Prod.mk.injEq]
      rintro g r (⟨rfl, rfl⟩ | hmem)
      · exact ⟨node, hnode, hnamed.symm⟩
      · exact hall g r hmem

theorem findPathLoop_live {root : Nat} {order : List Nat} (h : t.WellFormed root order) :
    ∀ {fuel start x : Nat} {p : Bytes}, start ∈ t.live → findPathLoop t fuel start p = some (some x) → x ∈ t.live
  | 0, _, _, _, _, hfind => by cases hfind
  | fuel + 1, start, x, p, hstart, hfind => by
    rw [findPathLoop] at hfind
    split at hfind
    · cases hfind
      exact hstart
    split at hfind
    · cases hfind
    next child hchild =>
    have hlive := h.live_of_getChild hstart hchild
    split at hfind
    · cases hfind
      exact hlive
    · exact findPathLoop_live h hlive hfind

theorem ofFindNodeByPathFrom_live {root : Nat} {order : List Nat} (h : t.WellFormed root order) {path : CString} {x : Nat}
    (hfind : ofFindNodeByPathFrom t t.rootNode path = some (some x)) : x ∈ t.live := by
  rw [ofFindNodeByPathFrom, Option.or_self, h.rootNode] at hfind
  split at hfind
  · next start p hstart _ =>
    obtain rfl := Option.some.inj hstart
    exact findPathLoop_live h ((h.live root).2 List.mem_cons_self) hfind
  · cases hfind

theorem stateGetNode_live {root : Nat} {order : List Nat} (h : t.WellFormed root order) {name : Option CString} {x : Nat}
    (hfind : stateGetNode t name = some (some x)) : x ∈ t.live := by
  have hstr {str : CString} (hstr : ofFindNodeByPathOrAlias t t.rootNode str = some (some x)) : x ∈ t.live := by
    rw [ofFindNodeByPathOrAlias, ofFindNodeByAlias] at hstr
    split at hstr
    · exact ofFindNodeByPathFrom_live h hstr
    · simp only [Option.bind_eq_bind, Option.bind_eq_some_iff] at hstr
      obtain ⟨found, -, hstr⟩ := hstr
      split at hstr
      · cases hstr
      split at hstr
      · cases hstr
      · exact ofFindNodeByPathFrom_live h hstr
  cases name with
  | some name => exact hstr hfind
  | none =>
    simp only [stateGetNode, Option.bind_eq_bind, Option.bind_eq_some_iff] at hfind
    obtain ⟨found, hfound, hfind⟩ := hfind
    cases found with
    | some node =>
      cases hfind
      exact hstr hfound
    | none => exact hstr hfind

theorem Aliased.find_alias (h : Aliased properties t) (hsound : AliasesSound properties) {pp : Property}
    (hpp : pp ∈ properties) :
    ofFindNodeByPathOrAlias t t.rootNode pp.name = ofFindNodeByPathFrom t none (CString.of pp.value) := by
  have hroot (path : CString) : ofFindNodeByPathFrom t t.rootNode path = ofFindNodeByPathFrom t none path := by
    rw [ofFindNodeByPathFrom, ofFindNodeByPathFrom, Option.or_self, Option.none_or]
  have hfind : properties.find? (·.name = pp.name) = some pp := by
    cases hfind : properties.find? (·.name = pp.name) with
    | none => exact absurd (decide_eq_true rfl) (List.find?_eq_none.1 hfind pp hpp)
    | some pp' =>
      have hname : pp'.name = pp.name := by simpa using List.find?_some hfind
      rw [List.inj_on_of_nodup_map hsound.nodup (List.mem_of_find?_eq_some hfind) hpp hname]
  obtain ⟨np, hnp, hproperties⟩ := h.aliases
  have hread : ofPropertyReadString (t.node np).device pp.name = .ok (CString.of pp.value) := by
    rw [ofPropertyReadString, ofFindProperty, show (t.node np).device.properties = properties from hproperties, hfind]
    simp only [if_pos (hsound.values pp hpp)]
  rw [ofFindNodeByPathOrAlias, if_neg (hsound.names pp hpp).1, ofFindNodeByAlias, hroot, hnp]
  simp only [Option.bind_eq_bind, Option.bind_some, hread, hroot]

theorem namedState_ok {node : Option Nat} {x : Nat} {name : CString} (h : .ok (x, name) = namedState properties t node) :
    node = some x ∧ ∃ pp, aliasFor properties (t.node x).fullName = some pp ∧ pp.name = name := by
  cases node with
  | none => cases h
  | some node =>
    rw [namedState] at h
    cases halias : aliasFor properties (t.node node).fullName with
    | none =>
      rw [halias] at h
      cases h
    | some pp =>
      rw [halias] at h
      cases h
      exact ⟨rfl, pp, halias, rfl⟩

end

/-- **The names of states tell their nodes apart**: whatever the states are
looked for by, nothing outside an object is read; the name that a state gets
leads to its node again; two states get one name exactly if they have one full
name; and a state that is looked for by an alias whose path does not end in a
slash gets a name. -/
theorem states_named {properties : List Property} {gets : List (NodeTree × Option CString)}
    (hsound : AliasesSound properties) (htrees : ∀ g ∈ gets, Aliased properties g.1) :
    ∃ results, stateGetNames none gets = some results ∧
      (∀ g x name, (g, .ok (x, name)) ∈ gets.zip results → g.1.rootNode ≠ some x →
        ofFindNodeByPathOrAlias g.1 g.1.rootNode name = some (some x)) ∧
      (∀ g x name, (g, .ok (x, name)) ∈ gets.zip results → ∀ g' x' name', (g', .ok (x', name')) ∈ gets.zip results →
        (name = name' ↔ sameButCase (g.1.node x).fullName (g'.1.node x').fullName = true)) ∧
      ∀ g r str, (g, r) ∈ gets.zip results → g.2 = some str →
        (∃ pp ∈ properties, pp.name = str ∧ (CString.of pp.value).1.getLast? ≠ some 47) →
        ∀ x, stateGetNode g.1 g.2 = some (some x) → ∃ name, r = .ok (x, name) := by
  have hnone : ∀ r ∈ (none : Option (NodeTree × Aliases)), Rooted properties r := by simp
  obtain ⟨results, hresults, hall⟩ := stateGetNames_eq hsound htrees hnone
  have hnamed : ∀ g x name, (g, .ok (x, name)) ∈ gets.zip results → stateGetNode g.1 g.2 = some (some x) ∧
      ∃ pp ∈ properties, aliasFor properties (g.1.node x).fullName = some pp ∧ pp.name = name ∧
        sameButCase (g.1.node x).fullName (CString.of pp.value) = true := by
    intro g x name hmem
    obtain ⟨node, hnode, hr⟩ := hall g _ hmem
    obtain ⟨rfl, pp, halias, hname⟩ := namedState_ok hr
    exact ⟨hnode, pp, List.mem_of_find?_eq_some halias, halias, hname, by simpa using List.find?_some halias⟩
  refine ⟨results, hresults, ?_, ?_, ?_⟩
  · intro g x name hmem hroot
    obtain ⟨hnode, pp, hpp, -, rfl, hsame⟩ := hnamed g x name hmem
    have htree := htrees g (List.of_mem_zip hmem).1
    obtain ⟨root, order, hwf, hrootNode⟩ := htree.rootNode
    have hx : x ∈ order := by
      rcases List.mem_cons.1 ((hwf.live x).1 (stateGetNode_live hwf hnode)) with rfl | hx
      · exact absurd hrootNode hroot
      · exact hx
    rw [htree.find_alias hsound hpp, ← ofFindNodeByPathFrom_congr hsame, hwf.find_fullName htree.named hx]
  · intro g x name hmem g' x' name' hmem'
    obtain ⟨-, pp, hpp, halias, rfl, hsame⟩ := hnamed g x name hmem
    obtain ⟨-, pp', hpp', halias', rfl, hsame'⟩ := hnamed g' x' name' hmem'
    constructor
    · intro hname
      obtain rfl := List.inj_on_of_nodup_map hsound.nodup hpp hpp' hname
      rw [sameButCase_iff] at hsame hsame' ⊢
      rw [hsame, hsame']
    · intro hfull
      rw [aliasFor_congr hfull, halias', Option.some.injEq] at halias
      rw [halias]
  · intro g r str hmem hstr hpath x hx
    obtain ⟨pp, hpp, rfl, hlast⟩ := hpath
    have htree := htrees g (List.of_mem_zip hmem).1
    obtain ⟨root, order, hwf, -⟩ := htree.rootNode
    obtain ⟨node, hnode, rfl⟩ := hall g r hmem
    obtain rfl : node = some x := Option.some.inj (hnode.symm.trans hx)
    rw [hstr, stateGetNode, htree.find_alias hsound hpp] at hx
    have hsame := hwf.find_fullName_of_path hlast hx
    obtain ⟨pp', halias⟩ : ∃ pp', aliasFor properties (g.1.node x).fullName = some pp' :=
      Option.isSome_iff_exists.1 (List.find?_isSome.2 ⟨pp, hpp, by simpa using hsame⟩)
    exact ⟨pp'.name, by rw [namedState, halias]⟩

/-- A root with two states, and the aliases of one and of the other. -/
def aliasTree : NodeTree :=
  (ofNewNode (ofNewNode (ofNewNode (.fresh 0) 1 (some 0) (cstr "aliases")) 2 (some 0) (cstr "a")) 3 (some 0)
    (cstr "b")).modify 1 fun n =>
      { n with properties := [⟨cstr "state", (cstr "/a").1 ++ [0]⟩, ⟨cstr "other", (cstr "/A").1 ++ [0]⟩,
        ⟨cstr "state1", (cstr "/b").1 ++ [0]⟩] }

theorem aliasTree_aliased : Aliased (aliasTree.node 1).properties aliasTree where
  built := ⟨0, [.setProperties 1 0 (aliasTree.node 1).properties, .newNode 0 3 (cstr "b"), .newNode 0 2 (cstr "a"),
    .newNode 0 1 (cstr "aliases")], .step (.step (.step (.step (.init rfl) ⟨⟨by decide, by decide⟩, rfl⟩)
      ⟨⟨by decide, by decide⟩, rfl⟩) ⟨⟨by decide, by decide⟩, rfl⟩)
    ⟨List.mem_cons_of_mem _ (List.mem_cons_of_mem _ List.mem_cons_self), rfl⟩⟩
  named := ⟨by decide, by decide⟩
  aliases := ⟨1, by decide, rfl⟩

theorem aliasTree_sound : AliasesSound (aliasTree.node 1).properties where
  nodup := by decide
  names := by decide
  values := by decide

/-- A state that is looked for by another one of its aliases, and one that is
looked for by its path. -/
theorem states_named_aliasTree :
    stateGetNames none [(aliasTree, some (cstr "other")), (aliasTree, some (cstr "/b"))] =
      some [.ok (2, cstr "state"), .ok (3, cstr "state1")] ∧
    ofFindNodeByPathOrAlias aliasTree aliasTree.rootNode (cstr "state") = some (some 2) := by
  have hget : stateGetNames none [(aliasTree, some (cstr "other")), (aliasTree, some (cstr "/b"))] =
      some [.ok (2, cstr "state"), .ok (3, cstr "state1")] := by decide +kernel
  have htrees : ∀ g ∈ [(aliasTree, some (cstr "other")), (aliasTree, some (cstr "/b"))],
      Aliased (aliasTree.node 1).properties g.1 := by simp [aliasTree_aliased]
  obtain ⟨results, hresults, hlead, -⟩ := states_named aliasTree_sound htrees
  obtain rfl := Option.some.inj (hget.symm.trans hresults)
  exact ⟨hget, hlead _ 2 (cstr "state") List.mem_cons_self (by decide)⟩

end DtUtils
