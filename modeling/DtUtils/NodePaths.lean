/-
Paths: `of_find_node_by_path_from` and `of_create_node`. Both cut the path at
its slashes and descend to the first child of each name; a path that was
created is found again, and nothing that was found before moves
(`paths_agree`).
-/
import DtUtils.TreeIteration

namespace DtUtils
open Lib Links

/-! ## The functions -/

/-- `of_get_child_by_name` -/
def ofGetChildByName (t : NodeTree) (node : Nat) (name : CString) : Option Nat :=
  (t.node node).children.find? fun child => sameButCase (t.node child).name name

/-- `strchr(p, '/')`, and the slash overwritten: the component, and what is
behind the slash. -/
def cutAtSlash (p : Bytes) : CString × Option Bytes :=
  (CString.of (p.takeWhile (· ≠ 47)), match p.dropWhile (· ≠ 47) with
    | [] => none
    | _ :: rest => some rest)

/-- The loop of `of_find_node_by_path_from`; the inner `none` is `NULL`. `fuel`
bounds the number of rounds. -/
def findPathLoop (t : NodeTree) : Nat → Nat → Bytes → Option (Option Nat)
  | 0, _, _ => none
  | fuel + 1, start, p =>
    if p = [] then some (some start)
    else
      match ofGetChildByName t start (cutAtSlash p).1 with
      | none => some none
      | some start =>
        match (cutAtSlash p).2 with
        | none => some (some start)
        | some p => findPathLoop t fuel start p

/-- `of_find_node_by_path_from` -/
def ofFindNodeByPathFrom (t : NodeTree) (start : Option Nat) (path : CString) : Option (Option Nat) :=
  match start.or t.rootNode, path.1 with
  | some start, 47 :: p => findPathLoop t (p.length + 1) start p
  | _, _ => some none

/-- The loop of `of_create_node`. -/
def createNodeLoop (A : Allocator) : Nat → NodeTree → Nat → Bytes → Option (NodeTree × Nat)
  | 0, _, _, _ => none
  | fuel + 1, t, dn, p =>
    if p = [] then some (t, dn)
    else
      let (t, dn) := match ofGetChildByName t dn (cutAtSlash p).1 with
        | some tmp => (t, tmp)
        | none => (ofNewNode t (A.alloc t.live) (some dn) (cutAtSlash p).1, A.alloc t.live)
      match (cutAtSlash p).2 with
      | none => some (t, dn)
      | some p => createNodeLoop A fuel t dn p

/-- `of_create_node` -/
def ofCreateNode (A : Allocator) (t : NodeTree) (root : Nat) (path : CString) : Option (NodeTree × Option Nat) :=
  match path.1 with
  | 47 :: p => (createNodeLoop A (p.length + 1) t root p).map fun (t, dn) => (t, some dn)
  | _ => some (t, none)

/-! ## Growing -/

/-- Nodes keep their names and stay in front among their parents' children. -/
def Grown (t t' : NodeTree) : Prop :=
  ∀ x ∈ t.live, x ∈ t'.live ∧ (t'.node x).name = (t.node x).name ∧ (t.node x).children <+: (t'.node x).children

theorem Grown.refl (t : NodeTree) : Grown t t := fun _ hx => ⟨hx, rfl, List.prefix_refl _⟩

theorem Grown.trans {t t' t'' : NodeTree} (h : Grown t t') (h' : Grown t' t'') : Grown t t'' := by
  intro x hx
  obtain ⟨hx', hname, hchildren⟩ := h x hx
  obtain ⟨hx'', hname', hchildren'⟩ := h' x hx'
  exact ⟨hx'', hname'.trans hname, hchildren.trans hchildren'⟩

theorem find?_congr {p q : Nat → Bool} : ∀ {xs : List Nat}, (∀ x ∈ xs, p x = q x) → xs.find? p = xs.find? q
  | [], _ => rfl
  | x :: xs, h => by
    rw [List.forall_mem_cons] at h
    rw [List.find?_cons, List.find?_cons, h.1, find?_congr h.2]

theorem sameButCase_self (s : CString) : sameButCase s s = true := by simp [sameButCase]

section
variable {t t' : NodeTree} {root : Nat} {order : List Nat}

theorem NodeTree.WellFormed.live_of_child (h : t.WellFormed root order) {x c : Nat} (hx : x ∈ t.live)
    (hc : c ∈ (t.node x).children) : c ∈ t.live :=
  (h.live c).2 (List.mem_cons_of_mem _ ((h.children x ((h.live x).1 hx) c).1 hc).1)

theorem NodeTree.WellFormed.live_of_getChild (h : t.WellFormed root order) {x c : Nat} {name : CString}
    (hx : x ∈ t.live) (hc : ofGetChildByName t x name = some c) : c ∈ t.live :=
  h.live_of_child hx (List.mem_of_find?_eq_some hc)

theorem Grown.getChild (hgrown : Grown t t') (h : t.WellFormed root order) {x c : Nat} {name : CString}
    (hx : x ∈ t.live) (hc : ofGetChildByName t x name = some c) : ofGetChildByName t' x name = some c := by
  obtain ⟨-, -, extra, hextra⟩ := hgrown x hx
  have hsame : (t.node x).children.find? (fun child => sameButCase (t'.node child).name name) = some c := by
    rw [← hc, ofGetChildByName]
    refine find?_congr fun child hchild => ?_
    rw [(hgrown child (h.live_of_child hx hchild)).2.1]
  rw [ofGetChildByName, ← hextra, List.find?_append, hsame, Option.some_or]

theorem grown_newNode {p new : Nat} (hnew : new ∉ t.live) (name : CString) :
    Grown t (ofNewNode t new (some p) name) := by
  intro x hx
  have hxnew : x ≠ new := ne_of_mem_of_not_mem hx hnew
  refine ⟨List.mem_cons_of_mem _ hx, (ofNewNode_other name hxnew).2.1, ?_⟩
  rw [ofNewNode_node, if_neg hxnew]
  split
  · next hxp =>
    subst hxp
    exact List.prefix_append ..
  · exact List.prefix_refl _

/-- The child that was just made is the one that its name finds, if there was
none before. -/
theorem getChild_newNode (h : t.WellFormed root order) {p new : Nat} (hp : p ∈ t.live) (hnew : new ∉ t.live)
    {name : CString} (hnone : ofGetChildByName t p name = none) :
    ofGetChildByName (ofNewNode t new (some p) name) p name = some new := by
  have hpnew : p ≠ new := ne_of_mem_of_not_mem hp hnew
  have hold : (t.node p).children.find?
      (fun child => sameButCase ((ofNewNode t new (some p) name).node child).name name) = none := by
    rw [← hnone, ofGetChildByName]
    refine find?_congr fun child hchild => ?_
    rw [(ofNewNode_other name (ne_of_mem_of_not_mem (h.live_of_child hp hchild) hnew)).2.1]
  have hchildren : ((ofNewNode t new (some p) name).node p).children = (t.node p).children ++ [new] := by
    rw [ofNewNode_node, if_neg hpnew, if_pos rfl]
  have hname : ((ofNewNode t new (some p) name).node new).name = name := by rw [ofNewNode_node, if_pos rfl]
  rw [ofGetChildByName, hchildren, List.find?_append, hold, Option.none_or, List.find?_cons, hname, sameButCase_self]

/-! ## The loops -/

theorem cutAtSlash_length {p rest : Bytes} (h : (cutAtSlash p).2 = some rest) : rest.length < p.length := by
  rw [cutAtSlash] at h
  split at h
  · cases h
  · next c rest' hdrop =>
    obtain rfl := Option.some.inj h
    have hlen := (List.dropWhile_suffix (l := p) (· ≠ 47)).length_le
    rw [hdrop, List.length_cons] at hlen
    omega

/-- A path that leads somewhere still leads there. -/
theorem Grown.findPath (hgrown : Grown t t') (h : t.WellFormed root order) :
    ∀ {fuel start n : Nat} {p : Bytes}, start ∈ t.live → findPathLoop t fuel start p = some (some n) →
      findPathLoop t' fuel start p = some (some n)
  | 0, _, _, _, _, hfind => by cases hfind
  | fuel + 1, start, n, p, hstart, hfind => by
    rw [findPathLoop] at hfind ⊢
    split at hfind
    · next hp => rw [if_pos hp, hfind]
    next hp =>
    rw [if_neg hp]
    cases hchild : ofGetChildByName t start (cutAtSlash p).1 with
    | none =>
      rw [hchild] at hfind
      cases hfind
    | some child =>
      simp only [hchild] at hfind
      simp only [hgrown.getChild h hstart hchild]
      cases hrest : (cutAtSlash p).2 with
      | none => simpa only [hrest] using hfind
      | some rest =>
        simp only [hrest] at hfind
        exact hgrown.findPath h (h.live_of_getChild hstart hchild) hfind

theorem createNodeLoop_found (A : Allocator) : ∀ {fuel start n : Nat} {p : Bytes},
    findPathLoop t fuel start p = some (some n) → createNodeLoop A fuel t start p = some (t, n)
  | 0, _, _, _, hfind => by cases hfind
  | fuel + 1, start, n, p, hfind => by
    rw [findPathLoop] at hfind
    rw [createNodeLoop]
    split at hfind
    · next hp =>
      simp only [Option.some.injEq] at hfind
      rw [if_pos hp, hfind]
    next hp =>
    rw [if_neg hp]
    cases hchild : ofGetChildByName t start (cutAtSlash p).1 with
    | none =>
      rw [hchild] at hfind
      cases hfind
    | some child =>
      simp only [hchild] at hfind ⊢
      cases hrest : (cutAtSlash p).2 with
      | none =>
        simp only [hrest, Option.some.injEq] at hfind
        rw [hfind]
      | some rest =>
        simp only [hrest] at hfind
        exact createNodeLoop_found A hfind

/-- Creating a path makes a tree in which it leads to the node returned. -/
theorem NodeTree.WellFormed.createNodeLoop (A : Allocator) : ∀ {fuel dn : Nat} {t : NodeTree} {order : List Nat}
    {p : Bytes}, t.WellFormed root order → dn ∈ t.live → p.length < fuel →
    ∃ t' n order', createNodeLoop A fuel t dn p = some (t', n) ∧ t'.WellFormed root order' ∧ Grown t t' ∧
      findPathLoop t' fuel dn p = some (some n)
  | 0, _, _, _, _, _, _, hfuel => absurd hfuel (Nat.not_lt_zero _)
  | fuel + 1, dn, t, order, p, h, hdn, hfuel => by
    rw [DtUtils.createNodeLoop]
    simp only [findPathLoop]
    by_cases hp : p = []
    · simp only [if_pos hp]
      exact ⟨t, dn, order, rfl, h, .refl t, rfl⟩
    · simp only [if_neg hp]
      -- The child, found or made.
      obtain ⟨t₁, child, order₁, heq, h₁, hgrown₁, hlive, hchild⟩ : ∃ t₁ child order₁,
          (match ofGetChildByName t dn (cutAtSlash p).1 with
            | some tmp => (t, tmp)
            | none => (ofNewNode t (A.alloc t.live) (some dn) (cutAtSlash p).1, A.alloc t.live)) = (t₁, child) ∧
          t₁.WellFormed root order₁ ∧ Grown t t₁ ∧ child ∈ t₁.live ∧
          ofGetChildByName t₁ dn (cutAtSlash p).1 = some child := by
        cases hchild : ofGetChildByName t dn (cutAtSlash p).1 with
        | some child => exact ⟨t, child, order, rfl, h, .refl t, h.live_of_getChild hdn hchild, hchild⟩
        | none =>
          have hnew := A.fresh t.live
          exact ⟨_, _, _, rfl, h.newNode ((h.live dn).1 hdn) (fun hmem => hnew ((h.live _).2 hmem)) _,
            grown_newNode hnew _, List.mem_cons_self, getChild_newNode h hdn hnew hchild⟩
      rw [heq]
      cases hrest : (cutAtSlash p).2 with
      | none => exact ⟨t₁, child, order₁, rfl, h₁, hgrown₁, by simp only [hchild]⟩
      | some rest =>
        have hlen := cutAtSlash_length hrest
        have hfuel' : rest.length < fuel := by omega
        obtain ⟨t', n, order', hcreate, h', hgrown', hfind⟩ :=
          NodeTree.WellFormed.createNodeLoop A h₁ hlive hfuel'
        refine ⟨t', n, order', hcreate, h', hgrown₁.trans hgrown', ?_⟩
        simp only [hgrown'.getChild h₁ (hgrown₁ dn hdn).1 hchild]
        exact hfind

/-! ## Full names -/

/-- A path with these components. -/
def pathBytes (names : List CString) : Bytes := names.flatMap fun name => 47 :: name.1

theorem CString.of_val (s : CString) : CString.of s.1 = s := by
  apply Subtype.ext
  rw [CString.of, List.takeWhile_eq_self_iff]
  intro b hb
  simpa using ne_of_mem_of_not_mem hb s.2

theorem cutAtSlash_name {name : CString} (hname : (47 : UInt8) ∉ name.1) (names : List CString) :
    cutAtSlash (name.1 ++ pathBytes names) = (name, match names with
      | [] => none
      | name' :: names' => some (name'.1 ++ pathBytes names')) := by
  have hpos : ∀ b ∈ name.1, decide (b ≠ 47) = true := fun b hb => by simpa using ne_of_mem_of_not_mem hb hname
  rw [cutAtSlash, List.takeWhile_append_of_pos hpos, List.dropWhile_append_of_pos hpos]
  cases names with
  | nil => simp [pathBytes, CString.of_val]
  | cons name' names' => simp [pathBytes, CString.of_val]

theorem findPathLoop_names {fuel start : Nat} {name : CString} {names : List CString}
    (hnames : ∀ n ∈ name :: names, n.1 ≠ [] ∧ (47 : UInt8) ∉ n.1) (hfuel : names.length < fuel) :
    findPathLoop t fuel start (name.1 ++ pathBytes names) =
      some ((name :: names).foldlM (fun node name => ofGetChildByName t node name) start) := by
  induction names generalizing fuel start name with
  | nil =>
    obtain ⟨hne, hslash⟩ := hnames name List.mem_cons_self
    obtain ⟨fuel, rfl⟩ := Nat.exists_eq_add_of_lt hfuel
    rw [findPathLoop, if_neg (by simp [hne]), cutAtSlash_name hslash]
    cases hchild : ofGetChildByName t start name <;> simp [hchild]
  | cons name' names ih =>
    obtain ⟨hne, hslash⟩ := hnames name List.mem_cons_self
    obtain ⟨fuel, rfl⟩ : ∃ f, fuel = f + 1 := ⟨fuel - 1, by omega⟩
    rw [findPathLoop, if_neg (by simp [hne]), cutAtSlash_name hslash, List.foldlM_cons]
    cases hchild : ofGetChildByName t start name with
    | none => simp
    | some child =>
      simp only [Option.bind_eq_bind, Option.bind_some]
      exact ih (fun n hn => hnames n (List.mem_cons_of_mem _ hn)) (by simpa using hfuel)

/-- Names are not empty and without slashes, and those of siblings differ in
more than case. -/
structure NodeTree.WellNamed (t : NodeTree) : Prop where
  sensible : ∀ x ∈ t.live, t.rootNode ≠ some x → (t.node x).name.1 ≠ [] ∧ (47 : UInt8) ∉ (t.node x).name.1
  distinct : ∀ x ∈ t.live, ∀ y ∈ t.live, t.rootNode ≠ some x → (t.node x).parent = (t.node y).parent →
    sameButCase (t.node x).name (t.node y).name → x = y

theorem NodeTree.WellFormed.ne_root (h : t.WellFormed root order) {x : Nat} (hx : x ∈ order) : t.rootNode ≠ some x := by
  rw [h.rootNode, Ne, Option.some.injEq]
  exact (ne_of_mem_of_not_mem hx (List.nodup_cons.1 h.ring.nodup).1).symm

theorem NodeTree.WellFormed.getChild_name (h : t.WellFormed root order) (hnames : t.WellNamed) {x p : Nat}
    (hx : x ∈ order) (hp : p ∈ root :: order) (hpar : (t.node x).parent = some p) :
    ofGetChildByName t p (t.node x).name = some x := by
  have hlive := (h.live x).2 (List.mem_cons_of_mem _ hx)
  have hchild := (h.children p hp x).2 ⟨hx, hpar⟩
  cases hfind : ofGetChildByName t p (t.node x).name with
  | none => exact absurd (sameButCase_self _) (by simpa using List.find?_eq_none.1 hfind x hchild)
  | some y =>
    have hy := (h.children p hp y).1 (List.mem_of_find?_eq_some hfind)
    have hsame : sameButCase (t.node y).name (t.node x).name = true := by simpa using List.find?_some hfind
    rw [hnames.distinct y ((h.live y).2 (List.mem_cons_of_mem _ hy.1)) x hlive (h.ne_root hy.1)
      (hy.2.trans hpar.symm) hsame]

/-- The full name of a node is the path to it. -/
theorem NodeTree.WellFormed.fullName (h : t.WellFormed root order) (hnames : t.WellNamed) :
    ∀ x ∈ root :: order, ∃ names : List CString, (t.node x).fullName.1 = pathBytes names ∧
      (∀ n ∈ names, n.1 ≠ [] ∧ (47 : UInt8) ∉ n.1) ∧ (x ≠ root → names ≠ []) ∧
      names.foldlM (fun node name => ofGetChildByName t node name) root = some x := by
  refine h.induct ⟨[], ?_, by simp, fun hne => absurd rfl hne, rfl⟩ fun x hx p hp hpar ih => ?_
  · rw [h.rootPath]
    rfl
  · obtain ⟨names, hpath, hsensible, -, hwalk⟩ := ih
    have hslash : (cstr "/").1 = [47] := by decide
    refine ⟨names ++ [(t.node x).name], ?_, ?_, by simp, ?_⟩
    · rw [h.path x hx p hpar]
      simp only [CString.append, hpath, hslash, pathBytes, List.flatMap_append, List.flatMap_singleton,
        List.singleton_append]
    · intro n hn
      rcases List.mem_append.1 hn with hn | hn
      · exact hsensible n hn
      · rw [List.mem_singleton.1 hn]
        exact hnames.sensible x ((h.live x).2 (List.mem_cons_of_mem _ hx)) (h.ne_root hx)
    · rw [List.foldlM_append, hwalk]
      simp [h.getChild_name hnames hx hp hpar]

theorem NodeTree.WellFormed.find_fullName (h : t.WellFormed root order) (hnames : t.WellNamed) {x : Nat}
    (hx : x ∈ order) : ofFindNodeByPathFrom t none (t.node x).fullName = some (some x) := by
  have hxroot : x ≠ root := ne_of_mem_of_not_mem hx (List.nodup_cons.1 h.ring.nodup).1
  obtain ⟨names, hpath, hsensible, hne, hwalk⟩ := h.fullName hnames x (List.mem_cons_of_mem _ hx)
  obtain ⟨name, names, rfl⟩ := List.exists_cons_of_ne_nil (hne hxroot)
  have hlen : names.length ≤ (pathBytes names).length := by
    clear * -
    induction names with
    | nil => exact le_rfl
    | cons n ns ih =>
      simp only [pathBytes, List.flatMap_cons, List.length_append, List.length_cons] at ih ⊢
      omega
  have hbytes : (t.node x).fullName.1 = 47 :: (name.1 ++ pathBytes names) := hpath
  rw [ofFindNodeByPathFrom, Option.none_or, h.rootNode, hbytes]
  simp only []
  rw [findPathLoop_names hsensible (by rw [List.length_append]; omega), hwalk]

end

/-- **Path creation and path lookup agree**: the node that is made for a path
is the one that the path leads to then; a path that led somewhere before makes
nothing new; all paths that led somewhere still do; and the full name of a node
other than the root is a path to it, where names are sensible. -/
theorem paths_agree {root : Nat} {ops : List TreeOp} {t : NodeTree} (h : (treeSystem root).Run ops t) (A : Allocator) :
    (∀ start ∈ t.live, ∀ path : CString, path.1.head? = some 47 → ∃ t' n,
      ofCreateNode A t start path = some (t', some n) ∧
      ofFindNodeByPathFrom t' (some start) path = some (some n) ∧
      (∀ n', ofFindNodeByPathFrom t (some start) path = some (some n') → n = n' ∧ t' = t) ∧
      ∀ start' ∈ t.live, ∀ path' n', ofFindNodeByPathFrom t (some start') path' = some (some n') →
        ofFindNodeByPathFrom t' (some start') path' = some (some n')) ∧
    (t.WellNamed → ∀ x ∈ t.live, t.rootNode ≠ some x →
      ofFindNodeByPathFrom t none (t.node x).fullName = some (some x)) := by
  obtain ⟨order, hwf⟩ := (treeSystem_invariant root).run h
  constructor
  · intro start hstart path hslash
    obtain ⟨p, hp⟩ : ∃ p, path.1 = 47 :: p := by
      cases hpath : path.1 with
      | nil => simp [hpath] at hslash
      | cons c p =>
        rw [hpath, List.head?_cons, Option.some.injEq] at hslash
        exact ⟨p, by rw [hslash]⟩
    obtain ⟨t', n, order', hcreate, -, hgrown, hfind⟩ :=
      hwf.createNodeLoop A hstart (Nat.lt_succ_self p.length)
    refine ⟨t', n, ?_, ?_, fun n' hn' => ?_, fun start' hstart' path' n' hn' => ?_⟩
    · rw [ofCreateNode, hp]
      simp only [hcreate, Option.map_some]
    · rw [ofFindNodeByPathFrom, hp, Option.some_or]
      exact hfind
    · rw [ofFindNodeByPathFrom, hp, Option.some_or] at hn'
      have hsame := createNodeLoop_found A hn'
      rw [hcreate, Option.some.injEq, Prod.mk.injEq] at hsame
      exact ⟨hsame.2, hsame.1⟩
    · rw [ofFindNodeByPathFrom, Option.some_or] at hn' ⊢
      split at hn'
      · next s p' hs hp' =>
        obtain rfl := Option.some.inj hs
        exact hgrown.findPath hwf hstart' hn'
      · cases hn'
  · intro hnames x hx hroot
    rcases List.mem_cons.1 ((hwf.live x).1 hx) with rfl | hx
    · exact absurd hwf.rootNode hroot
    · exact hwf.find_fullName hnames hx

theorem paths_agree_smallTree : ofFindNodeByPathFrom smallTree none (cstr "/a/c") = some (some 3) := by
  obtain ⟨-, hpath⟩ := paths_agree smallTree_run nextAddress
  exact hpath ⟨by decide, by decide⟩ 3 (by decide) (by decide)

example : ((ofCreateNode nextAddress smallTree 0 (cstr "/A//d/")).map Prod.snd) = some (some 5) := by decide

/-- The root's full name is empty, which is no path. -/
theorem root_fullName_not_found : (NodeTree.fresh 0).WellNamed ∧ 0 ∈ (NodeTree.fresh 0).live ∧
    ofFindNodeByPathFrom (.fresh 0) (some 0) ((NodeTree.fresh 0).node 0).fullName ≠ some (some 0) :=
  ⟨⟨by decide, by decide⟩, by decide, by decide⟩

end DtUtils
