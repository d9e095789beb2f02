/-
The grammar of a device tree blob's structure block and the tree that a token
sequence denotes, against what the flat loop of `of_unflatten_dtb` keeps: the
current node and its ancestors, and of those only whether there is one.
-/
import DtUtils.Fdt

namespace DtUtils
open Lib

/-- What a tag of the structure block stands for. -/
inductive Token
  | beginNode (name : CString)
  | endNode
  | prop (p : Property)
  | nop
deriving DecidableEq

/-! ## The grammar -/

/-- The contents of a node, any mixture of properties and nested nodes, make
`n` into `n'`. -/
inductive Items : DeviceNode → List Token → DeviceNode → Prop
  | nil {n} : Items n [] n
  | prop {n p toks n'} : Items (n.addProperty p) toks n' → Items n (.prop p :: toks) n'
  | child {n name body c toks n'} : Items (.node name 0 [] []) body c → Items (n.addChild c) toks n' →
      Items n (.beginNode name :: body ++ .endNode :: toks) n'

/-- A sequence without its `FDT_NOP`s. -/
def meaningful (toks : List Token) : List Token := toks.filter (· ≠ .nop)

/-- Exactly one balanced node, the root of `t`; the root has no name in memory. -/
def OneNode (toks : List Token) (t : DeviceNode) : Prop :=
  ∃ name body, meaningful toks = .beginNode name :: body ++ [.endNode] ∧ Items (.node .empty 0 [] []) body t

/-- Open nodes, and nodes that have no parent. -/
structure Nesting where
  depth : Nat
  roots : Nat
deriving DecidableEq

/-- `none` is the end of a node, or a property, outside a node. -/
def Nesting.token : Nesting → Token → Option Nesting
  | ⟨0, r⟩, .beginNode _ => some ⟨1, r + 1⟩
  | ⟨d + 1, r⟩, .beginNode _ => some ⟨d + 2, r⟩
  | ⟨d + 1, r⟩, .endNode => some ⟨d, r⟩
  | ⟨d + 1, r⟩, .prop _ => some ⟨d + 1, r⟩
  | s, .nop => some s
  | _, _ => none

/-- The nesting of a whole sequence. -/
def nesting (toks : List Token) : Option Nesting := toks.foldlM Nesting.token ⟨0, 0⟩

@[simp] theorem Nesting.token_nop (s : Nesting) : s.token .nop = some s := by
  obtain ⟨d | d, r⟩ := s <;> rfl

/-- A `FDT_NOP` changes nothing in a fold that ignores it. -/
theorem foldlM_meaningful {σ : Type} {f : σ → Token → Option σ} (hf : ∀ s, f s .nop = some s) (toks : List Token) :
    ∀ s, (meaningful toks).foldlM f s = toks.foldlM f s := by
  induction toks with
  | nil => intro s; rfl
  | cons tok toks ih =>
    intro s
    by_cases h : tok = .nop
    · subst h
      rw [List.foldlM_cons, hf]
      exact ih s
    · have hm : meaningful (tok :: toks) = tok :: meaningful toks := by simp [meaningful, h]
      rw [hm, List.foldlM_cons, List.foldlM_cons]
      exact bind_congr fun s' => ih s'

theorem nop_not_mem_meaningful (toks : List Token) : .nop ∉ meaningful toks := by simp [meaningful]

/-- The contents of an open node leave the nesting as it is. -/
theorem Items.nesting {n n' : DeviceNode} {body : List Token} (h : Items n body n') :
    ∀ (d r : Nat), body.foldlM Nesting.token ⟨d + 1, r⟩ = some ⟨d + 1, r⟩ := by
  induction h with
  | nil => intro d r; rfl
  | prop _ ih => intro d r; exact ih d r
  | child _ _ ihBody ih =>
    intro d r
    rw [List.cons_append, List.foldlM_cons]
    show List.foldlM Nesting.token ⟨d + 2, r⟩ _ = _
    rw [List.foldlM_append, ihBody (d + 1) r]
    exact ih d r

/-- A sequence that closes the node it begins in has the node's contents in
front of the end of the node. -/
theorem exists_items : ∀ (m : Nat) (toks : List Token), toks.length ≤ m → .nop ∉ toks → ∀ {d r : Nat} {s : Nesting},
    toks.foldlM Nesting.token ⟨d + 1, r⟩ = some s → s.depth ≤ d →
    ∃ body rest, toks = body ++ .endNode :: rest ∧ (∀ n, ∃ n', Items n body n') ∧
      rest.foldlM Nesting.token ⟨d, r⟩ = some s
  | m, [], _, _, d, r, s, h, hd => by
    obtain rfl : (⟨d + 1, r⟩ : Nesting) = s := Option.some.inj h
    simp only at hd
    omega
  | 0, _ :: _, hm, _, _, _, _, _, _ => by simp at hm
  | m + 1, .nop :: toks, _, hnop, _, _, _, _, _ => by simp at hnop
  | m + 1, .endNode :: toks, _, _, d, r, s, h, _ =>
    ⟨[], toks, rfl, fun n => ⟨n, .nil⟩, h⟩
  | m + 1, .prop p :: toks, hm, hnop, d, r, s, h, hd => by
    obtain ⟨body, rest, rfl, hitems, hrest⟩ :=
      exists_items m toks (by simpa using hm) (fun hn => hnop (.tail _ hn)) (d := d) (r := r) h hd
    refine ⟨.prop p :: body, rest, rfl, fun n => ?_, hrest⟩
    obtain ⟨n', hn'⟩ := hitems (n.addProperty p)
    exact ⟨n', .prop hn'⟩
  | m + 1, .beginNode name :: toks, hm, hnop, d, r, s, h, hd => by
    -- The nested node ends first, then the one around it.
    obtain ⟨inner, rest₁, rfl, hinner, hrest₁⟩ :=
      exists_items m toks (by simpa using hm) (fun hn => hnop (.tail _ hn)) (d := d + 1) (r := r) h (by omega)
    have hlen : rest₁.length ≤ m := by
      simp only [List.length_cons, List.length_append] at hm
      omega
    obtain ⟨body, rest, rfl, hitems, hrest⟩ :=
      exists_items m rest₁ hlen (fun hn => hnop (by simp [hn])) hrest₁ hd
    refine ⟨.beginNode name :: inner ++ .endNode :: body, rest, by simp, fun n => ?_, hrest⟩
    obtain ⟨c, hc⟩ := hinner (.node name 0 [] [])
    obtain ⟨n', hn'⟩ := hitems (n.addChild c)
    exact ⟨n', .child hc hn'⟩

/-- The number of nodes without a parent never falls. -/
theorem Nesting.roots_le : ∀ {toks : List Token} {s s' : Nesting},
    toks.foldlM Nesting.token s = some s' → s.roots ≤ s'.roots
  | [], s, s', h => by
    obtain rfl : s = s' := Option.some.inj h
    exact le_rfl
  | tok :: toks, s, s', h => by
    rw [List.foldlM_cons] at h
    obtain ⟨s₁, hs₁, h⟩ := Option.bind_eq_some_iff.1 h
    refine le_trans ?_ (Nesting.roots_le h)
    obtain ⟨d, r⟩ := s
    cases d <;> cases tok <;> first | (obtain rfl := Option.some.inj hs₁; simp) | cases hs₁

/-- **A sequence is one balanced node if and only if all nodes are closed and
one of them is without a parent.** -/
theorem exists_oneNode_iff {toks : List Token} : (∃ t, OneNode toks t) ↔ nesting toks = some ⟨0, 1⟩ := by
  rw [nesting, ← foldlM_meaningful Nesting.token_nop]
  have hnop := nop_not_mem_meaningful toks
  constructor
  · rintro ⟨t, name, body, hm, hitems⟩
    rw [hm, List.cons_append, List.foldlM_cons]
    show List.foldlM Nesting.token ⟨1, 1⟩ _ = _
    rw [List.foldlM_append, hitems.nesting 0 1]
    rfl
  · intro h
    unfold OneNode
    generalize meaningful toks = toks at h hnop ⊢
    match toks, h, hnop with
    | .nop :: toks, _, hnop => simp at hnop
    | .beginNode name :: toks, h, hnop =>
      obtain ⟨body, rest, rfl, hitems, hrest⟩ :=
        exists_items toks.length toks le_rfl (fun hn => hnop (.tail _ hn)) (d := 0) (r := 1) h le_rfl
      obtain ⟨t, ht⟩ := hitems (.node .empty 0 [] [])
      match rest, hrest, hnop with
      | [], _, _ => exact ⟨t, name, body, rfl, ht⟩
      | .nop :: _, _, hnop => simp at hnop
      | .beginNode _ :: rest, hrest, _ =>
        -- A second root would count.
        have hle := Nesting.roots_le (s := ⟨1, 2⟩) hrest
        simp at hle

/-! ## The loop -/

/-- What the loop does at a token. -/
def Unflattening.token (u : Unflattening) : Token → Option Unflattening
  | .beginNode name => some (u.beginNode name)
  | .endNode => if u.isOpen then some u.endNode else none
  | .prop p => if u.isOpen then some (u.addProperty p) else none
  | .nop => some u

/-- The current node is as deep as the nesting says. -/
def Unflattening.At (u : Unflattening) (s : Nesting) : Prop :=
  u.isOpen = decide (s.depth ≠ 0) ∧ u.parents.length = s.depth - 1

theorem Unflattening.start_at : Unflattening.start.At ⟨0, 0⟩ := ⟨rfl, rfl⟩

/-- The loop goes on at a token if and only if the nesting allows for it. -/
theorem Unflattening.At.token {u : Unflattening} {s : Nesting} (h : u.At s) (tok : Token) :
    (u.token tok = none ∧ s.token tok = none) ∨ ∃ u' s', u.token tok = some u' ∧ s.token tok = some s' ∧ u'.At s' := by
  obtain ⟨top, parents, isOpen⟩ := u
  obtain ⟨d, r⟩ := s
  obtain ⟨ho, hp⟩ := h
  simp only at ho hp
  subst ho
  cases d with
  | zero =>
    cases tok with
    | beginNode name => exact .inr ⟨_, _, rfl, rfl, rfl, hp⟩
    | endNode => exact .inl ⟨rfl, rfl⟩
    | prop p => exact .inl ⟨rfl, rfl⟩
    | nop => exact .inr ⟨_, _, rfl, rfl, rfl, hp⟩
  | succ d =>
    cases tok with
    | beginNode name => exact .inr ⟨_, _, rfl, rfl, rfl, by simpa [Unflattening.beginNode] using hp⟩
    | endNode =>
      refine .inr ⟨_, _, rfl, rfl, ?_⟩
      cases parents with
      | nil =>
        obtain rfl : d = 0 := by simpa using hp.symm
        exact ⟨rfl, rfl⟩
      | cons parent parents =>
        obtain ⟨d, rfl⟩ : ∃ e, d = e + 1 := ⟨parents.length, by simpa using hp.symm⟩
        exact ⟨rfl, by simpa [Unflattening.endNode] using hp⟩
    | prop p => exact .inr ⟨_, _, rfl, rfl, rfl, hp⟩
    | nop => exact .inr ⟨_, _, rfl, rfl, rfl, hp⟩

/-- The loop gets through a sequence if and only if its nesting does. -/
theorem Unflattening.At.tokens : ∀ {u : Unflattening} {s : Nesting}, u.At s → ∀ toks : List Token,
    (toks.foldlM Unflattening.token u = none ∧ toks.foldlM Nesting.token s = none) ∨
      ∃ u' s', toks.foldlM Unflattening.token u = some u' ∧ toks.foldlM Nesting.token s = some s' ∧ u'.At s'
  | u, s, h, [] => .inr ⟨u, s, rfl, rfl, h⟩
  | u, s, h, tok :: toks => by
    rw [List.foldlM_cons, List.foldlM_cons]
    obtain ⟨hu, hs⟩ | ⟨u', s', hu, hs, h'⟩ := h.token tok
    · rw [hu, hs]
      exact .inl ⟨rfl, rfl⟩
    · rw [hu, hs]
      exact h'.tokens toks

/-- The loop makes of a node's contents what they denote. -/
theorem Items.foldlM {n n' : DeviceNode} {body : List Token} (h : Items n body n') :
    ∀ parents, body.foldlM Unflattening.token ⟨n, parents, true⟩ = some ⟨n', parents, true⟩ := by
  induction h with
  | nil => intro parents; rfl
  | prop _ ih => intro parents; exact ih parents
  | @child n name body c toks n' _ _ ihBody ih =>
    intro parents
    rw [List.cons_append, List.foldlM_cons]
    show List.foldlM Unflattening.token ⟨.node name 0 [] [], n :: parents, true⟩ _ = _
    rw [List.foldlM_append, ihBody (n :: parents)]
    exact ih parents

/-- The loop makes the tree that one balanced node denotes. -/
theorem OneNode.foldlM {toks : List Token} {t : DeviceNode} (h : OneNode toks t) :
    toks.foldlM Unflattening.token .start = some ⟨t, [], false⟩ := by
  obtain ⟨name, body, hm, hitems⟩ := h
  rw [← foldlM_meaningful (fun _ => rfl), hm, List.cons_append, List.foldlM_cons]
  show List.foldlM Unflattening.token ⟨.node .empty 0 [] [], [], true⟩ _ = _
  rw [List.foldlM_append, hitems.foldlM []]
  rfl

end DtUtils
