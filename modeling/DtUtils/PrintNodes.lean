/-
The dump of a whole tree, `of_print_nodes` of `libdt.c`, and `fdtdump` on top of
it: if no name can be taken for a part of a line and no string holds a quote, the
text tells the tree, with its phandles (`fdtdump_unambiguous`).

A line ends where the first newline is, and what kind of line it is shows behind
the tabs and the name.
-/
import DtUtils.PrintProperty
import DtUtils.Phandles

namespace DtUtils
open Lib

/-! ## The program -/

def tabs (n : Nat) : Bytes := List.replicate n 9

/-- ` = ` -/
def valueMark : Bytes := [32, 61, 32]

/-- `;` and the end of the line -/
def lineEnd : Bytes := [59, 10]

/-- ` {` and the end of the line -/
def nodeStart : Bytes := [32, 123, 10]

/-- `};` and the end of the line -/
def nodeEnd : Bytes := [125, 59, 10]

/-- What stands between the name of a property and the end of its line. -/
def printValue (value : Bytes) : Option Bytes :=
  if value = [] then some [] else (ofPrintProperty value).map (valueMark ++ ·)

/-- The loop of `of_print_nodes` over the properties. -/
def printProperties (indent : Nat) : List Property → Option Bytes
  | [] => some []
  | p :: properties => do
    let value ← printValue p.value
    let rest ← printProperties indent properties
    return tabs indent ++ p.name.1 ++ (value ++ lineEnd) ++ rest

mutual
/-- `of_print_nodes` -/
def ofPrintNodes (indent : Nat) : DeviceNode → Option Bytes
  | .node name _ properties children => do
    let lines ← printProperties (indent + 1) properties
    let nodes ← printChildren (indent + 1) children
    return tabs indent ++ name.1 ++ nodeStart ++ lines ++ nodes ++ (tabs indent ++ nodeEnd)

/-- Its loop over the children. -/
def printChildren (indent : Nat) : List DeviceNode → Option Bytes
  | [] => some []
  | node :: nodes => do
    let text ← ofPrintNodes indent node
    let rest ← printChildren indent nodes
    return text ++ rest
end

/-- `main` of `fdtdump.c` on the content of a file: what it prints and the exit
code. -/
def fdtdump (fdt : Bytes) : Option (Bytes × Nat) := do
  match ← ofUnflattenDtb fdt with
  | .error _ => return ([], 1)
  | .ok root =>
    let text ← ofPrintNodes 0 root
    return ((cstr "/dts-v1/;\n/").1 ++ text, 0)

example : ofPrintNodes 0 (.node .empty 0 [⟨cstr "a", [0, 0, 0, 7]⟩] [.node (cstr "b") 0 [] []]) =
    some (cstr " \x7b\n\ta = <0x7>;\n\tb \x7b\n\t\x7d;\n\x7d;\n").1 := by decide +kernel

/-! ## What the text tells -/

/-- The name cannot be taken for a part of a line. -/
def DumpName (name : CString) : Prop := ∀ c ∈ name.1, c ≠ 10 ∧ c ≠ 32 ∧ c ≠ 59

/-- The strings of a value hold no quote. -/
def DumpValue (value : Bytes) : Prop := isPrintableString value = some true → 34 ∉ value

/-- Names and values that a dump tells. -/
structure Dumpable (node : DeviceNode) : Prop where
  name : DumpName node.name
  properties : ∀ p ∈ node.properties, DumpName p.name ∧ DumpValue p.value

/-! ## Values -/

/-- A character of a string that is printed as one. -/
theorem isPrintableLoop_mem : ∀ {data : Bytes} {c : UInt8}, isPrintableLoop data = some true → c ∈ data →
    c = 0 ∨ isPrint c
  | [], _, _, hc => by cases hc
  | [a], c, h, hc => by
    obtain rfl : c = a := by simpa using hc
    by_cases h0 : c = 0
    · exact .inl h0
    · simp [isPrintableLoop, h0] at h
  | a :: b :: s, c, h, hc => by
    rw [isPrintableLoop] at h
    split at h
    next h0 =>
      split at h
      · cases h
      rcases List.mem_cons.1 hc with rfl | hc
      · exact .inl h0
      · exact isPrintableLoop_mem h hc
    split at h
    next hp =>
      rcases List.mem_cons.1 hc with rfl | hc
      · exact .inr hp
      · exact isPrintableLoop_mem h hc
    · cases h

theorem isPrintableString_mem {data : Bytes} {c : UInt8} (h : isPrintableString data = some true) (hc : c ∈ data) :
    c = 0 ∨ isPrint c := by
  rw [isPrintableString] at h
  split at h
  · cases h
  split at h
  · cases h
  · exact isPrintableLoop_mem h hc

theorem mem_intercalate {α : Type} {x : α} {sep : List α} : ∀ {xs : List (List α)}, x ∈ sep.intercalate xs →
    x ∈ sep ∨ ∃ l ∈ xs, x ∈ l
  | [], h => by simp at h
  | [l], h => .inr ⟨l, by simp, by simpa using h⟩
  | l :: l' :: xs, h => by
    rw [List.intercalate_cons_cons, List.mem_append, List.mem_append] at h
    rcases h with (hl | hsep) | hrest
    · exact .inr ⟨l, by simp, hl⟩
    · exact .inl hsep
    · rcases mem_intercalate hrest with hsep | ⟨m, hm, hx⟩
      · exact .inl hsep
      · exact .inr ⟨m, List.mem_cons_of_mem _ hm, hx⟩

theorem hexDigit_ne_newline {d : Nat} (hd : d < 16) : hexDigit d ≠ 10 := by
  interval_cases d <;> decide

theorem printCell_one_line (a : UInt32) : (10 : UInt8) ∉ printCell a := by
  intro hmem
  rcases List.mem_append.1 hmem with h | h
  · revert h
    decide
  · obtain ⟨d, hd, hc⟩ := List.mem_map.1 h
    exact hexDigit_ne_newline (hexDigits_lt (List.mem_reverse.1 hd)) hc

theorem hexByte_one_line (b : UInt8) : (10 : UInt8) ∉ hexByte b := by
  revert b
  decide +kernel

theorem Printed.one_line {v text : Bytes} (h : Printed v text) : (10 : UInt8) ∉ text := by
  have hwords {l : List Bytes} (hw : ∀ w ∈ l, (10 : UInt8) ∉ w) : (10 : UInt8) ∉ [32].intercalate l := by
    intro hmem
    rcases mem_intercalate hmem with hsep | ⟨w, hin, hc⟩
    · revert hsep
      decide
    · exact hw w hin hc
  cases h with
  | @strings ss _ hyes =>
    intro hmem
    have hin : (10 : UInt8) ∈ stringSeparator.intercalate (ss.map (·.1)) := by simpa using hmem
    rcases mem_intercalate hin with hsep | ⟨_, hs, hc⟩
    · revert hsep
      decide
    · obtain ⟨s, hs', rfl⟩ := List.mem_map.1 hs
      have := isPrintableString_mem hyes (List.mem_flatMap.2 ⟨s, hs', List.mem_append_left _ hc⟩)
      revert this
      decide
  | @cells _ n =>
    have := hwords (l := (DtUtils.cells n v).map printCell) fun w hw => by
      obtain ⟨a, -, rfl⟩ := List.mem_map.1 hw
      exact printCell_one_line a
    simpa using this
  | bytes =>
    have := hwords (l := v.map hexByte) fun w hw => by
      obtain ⟨a, -, rfl⟩ := List.mem_map.1 hw
      exact hexByte_one_line a
    simpa using this

/-- Values without quotes are told by their text. -/
theorem Printed.inj {v w text : Bytes} (hv : Printed v text) (hw : Printed w text) (hvq : DumpValue v)
    (hwq : DumpValue w) : v = w := by
  cases hv with
  | @strings ss hss hyes =>
    generalize htext : [34] ++ stringSeparator.intercalate (ss.map (·.1)) ++ [34] = text at hw
    cases hw with
    | @strings ss' hss' hyes' =>
      have hwords := List.append_cancel_left (List.append_cancel_right htext)
      exact congrArg stringListBytes (strings_inj hss hss' (hvq hyes) (hwq hyes') hwords)
    | cells => cases htext
    | bytes => cases htext
  | @cells _ n hne hlen =>
    generalize htext : [60] ++ [32].intercalate ((DtUtils.cells n v).map printCell) ++ [62] = text at hw
    cases hw with
    | strings => cases htext
    | @cells _ m hne' hlen' =>
      have hwords := List.append_cancel_left (List.append_cancel_right htext)
      exact cells_inj hlen hlen' (items_inj printCell_inj printCell_no_space (cells_ne_nil hne hlen)
        (cells_ne_nil hne' hlen') hwords)
    | bytes => cases htext
  | @bytes _ hne =>
    generalize htext : [91] ++ [32].intercalate (v.map hexByte) ++ [93] = text at hw
    cases hw with
    | strings => cases htext
    | cells => cases htext
    | @bytes _ hne' =>
      have hwords := List.append_cancel_left (List.append_cancel_right htext)
      exact items_inj hexByte_inj hexByte_no_space hne hne' hwords

/-! ## Lines -/

/-- What a value without newline, and the line's end, come to. -/
theorem printValue_cases {value text : Bytes} (h : printValue value = some text) :
    (value = [] ∧ text = []) ∨ ∃ shown, Printed value shown ∧ text = valueMark ++ shown := by
  rw [printValue] at h
  split at h
  next hnil =>
    cases h
    exact .inl ⟨hnil, rfl⟩
  next hne =>
    obtain ⟨shown, hshown, hp⟩ := ofPrintProperty_printed hne
    rw [hshown] at h
    cases h
    exact .inr ⟨shown, hp, rfl⟩

/-- A name ends at the first character that none contains. -/
theorem name_append_inj {x y : CString} (hx : DumpName x) (hy : DumpName y) {s t : UInt8} {u v : Bytes}
    (hs : s = 32 ∨ s = 59) (ht : t = 32 ∨ t = 59) (h : x.1 ++ s :: u = y.1 ++ t :: v) : x = y ∧ s = t ∧ u = v := by
  have hstop {z : CString} {c : UInt8} (hz : DumpName z) (hc : c = 32 ∨ c = 59) (w : Bytes) :
      (z.1 ++ c :: w).takeWhile (fun c => c ≠ 32 ∧ c ≠ 59) = z.1 := by
    rw [List.takeWhile_append_of_pos fun a ha => by simpa using (hz a ha).2, List.takeWhile_cons_of_neg, List.append_nil]
    rcases hc with rfl | rfl <;> decide
  have hxy : x.1 = y.1 := by rw [← hstop hx hs u, h, hstop hy ht v]
  rw [hxy, List.append_cancel_left_eq, List.cons.injEq] at h
  exact ⟨Subtype.ext hxy, h⟩

theorem value_append_inj {v w tv tw u u' : Bytes} (hv : printValue v = some tv) (hw : printValue w = some tw)
    (hvq : DumpValue v) (hwq : DumpValue w) (h : tv ++ lineEnd ++ u = tw ++ lineEnd ++ u') : v = w ∧ u = u' := by
  rcases printValue_cases hv with ⟨rfl, rfl⟩ | ⟨a, ha, rfl⟩ <;> rcases printValue_cases hw with ⟨rfl, rfl⟩ | ⟨b, hb, rfl⟩
  · simpa [lineEnd] using h
  · simp [lineEnd, valueMark] at h
  · simp [lineEnd, valueMark] at h
  · have hline : (a ++ [59]) ++ 10 :: u = (b ++ [59]) ++ 10 :: u' := by
      simpa [lineEnd, valueMark] using h
    have hend {c : Bytes} (hc : (10 : UInt8) ∉ c) : (10 : UInt8) ∉ c ++ [59] := by simpa using hc
    obtain ⟨hab, rfl⟩ := append_cons_inj (hend ha.one_line) (hend hb.one_line) hline
    obtain rfl := List.append_cancel_right hab
    exact ⟨ha.inj hb hvq hwq, rfl⟩

/-- The line of a property at `n` tabs does not begin with `text`. -/
def NotProperty (n : Nat) (text : Bytes) : Prop :=
  ∀ (name : CString) (value tv u : Bytes), DumpName name → printValue value = some tv →
    text ≠ tabs n ++ name.1 ++ (tv ++ lineEnd) ++ u

/-- What is printed behind a name is known by its first two characters. -/
theorem printValue_start {value tv : Bytes} (h : printValue value = some tv) :
    (∃ u, tv ++ lineEnd = 59 :: u) ∨ ∃ u, tv ++ lineEnd = 32 :: 61 :: u := by
  rcases printValue_cases h with ⟨-, rfl⟩ | ⟨shown, -, rfl⟩
  · exact .inl ⟨[10], rfl⟩
  · exact .inr ⟨32 :: (shown ++ lineEnd), rfl⟩

theorem notProperty_node {n : Nat} {name : CString} (hname : DumpName name) (u : Bytes) :
    NotProperty n (tabs n ++ name.1 ++ nodeStart ++ u) := by
  intro name' value tv u' hname' htv h
  simp only [List.append_assoc, List.append_cancel_left_eq] at h
  rw [← List.append_assoc tv] at h
  rcases printValue_start htv with ⟨w, hw⟩ | ⟨w, hw⟩
  · rw [hw] at h
    obtain ⟨-, hs, -⟩ := name_append_inj hname hname' (.inl rfl) (.inr rfl)
      (show name.1 ++ 32 :: (123 :: 10 :: u) = name'.1 ++ 59 :: (w ++ u') from h)
    exact absurd hs (by decide)
  · rw [hw] at h
    obtain ⟨-, -, hs⟩ := name_append_inj hname hname' (.inl rfl) (.inl rfl)
      (show name.1 ++ 32 :: (123 :: 10 :: u) = name'.1 ++ 32 :: (61 :: w ++ u') from h)
    simp at hs

/-- A line of a node's contents has one tab more than the end of the node. -/
theorem tabs_succ (n : Nat) : tabs (n + 1) = tabs n ++ [9] := List.replicate_succ'

theorem notProperty_end (n : Nat) (u : Bytes) : NotProperty (n + 1) (tabs n ++ nodeEnd ++ u) := by
  intro name' value tv u' _ _ h
  simp [tabs_succ, nodeEnd] at h

theorem printProperties_inj {n : Nat} {X Y : Bytes} (hX : NotProperty n X) (hY : NotProperty n Y) :
    ∀ {ps qs : List Property} {tp tq : Bytes}, (∀ p ∈ ps, DumpName p.name ∧ DumpValue p.value) →
      (∀ q ∈ qs, DumpName q.name ∧ DumpValue q.value) → printProperties n ps = some tp →
      printProperties n qs = some tq → tp ++ X = tq ++ Y → ps = qs ∧ X = Y
  | [], [], _, _, _, _, hp, hq, h => by
    cases hp
    cases hq
    exact ⟨rfl, h⟩
  | [], q :: qs, _, _, _, hqs, hp, hq, h => by
    cases hp
    simp only [printProperties, Option.bind_eq_bind, Option.bind_eq_some_iff] at hq
    obtain ⟨tv, htv, rest, -, hq⟩ := hq
    cases hq
    refine absurd ?_ (hX q.name q.value tv (rest ++ Y) (hqs q (by simp)).1 htv)
    simpa using h
  | p :: ps, [], _, _, hps, _, hp, hq, h => by
    cases hq
    simp only [printProperties, Option.bind_eq_bind, Option.bind_eq_some_iff] at hp
    obtain ⟨tv, htv, rest, -, hp⟩ := hp
    cases hp
    refine absurd ?_ (hY p.name p.value tv (rest ++ X) (hps p (by simp)).1 htv)
    simpa using h.symm
  | p :: ps, q :: qs, _, _, hps, hqs, hp, hq, h => by
    simp only [printProperties, Option.bind_eq_bind, Option.bind_eq_some_iff] at hp hq
    obtain ⟨tv, htv, rest, hrest, hp⟩ := hp
    obtain ⟨tw, htw, rest', hrest', hq⟩ := hq
    cases hp
    cases hq
    rw [List.forall_mem_cons] at hps hqs
    have hline : p.name.1 ++ (tv ++ lineEnd ++ (rest ++ X)) = q.name.1 ++ (tw ++ lineEnd ++ (rest' ++ Y)) := by
      simpa using h
    have hstart {value t : Bytes} (ht : printValue value = some t) : ∃ s u, (s = 32 ∨ s = 59) ∧ t ++ lineEnd = s :: u := by
      rcases printValue_start ht with ⟨u, hu⟩ | ⟨u, hu⟩
      · exact ⟨59, u, .inr rfl, hu⟩
      · exact ⟨32, 61 :: u, .inl rfl, hu⟩
    obtain ⟨s, u, hs, hsu⟩ := hstart htv
    obtain ⟨t, u', ht, htu⟩ := hstart htw
    have hline' := hline
    rw [hsu, htu] at hline'
    obtain ⟨hname, rfl, htail⟩ := name_append_inj hps.1.1 hqs.1.1 hs ht hline'
    have hrests : tv ++ lineEnd ++ (rest ++ X) = tw ++ lineEnd ++ (rest' ++ Y) := by
      rw [hsu, htu]
      exact congrArg (s :: ·) htail
    obtain ⟨hvalue, htexts⟩ := value_append_inj htv htw hps.1.2 hqs.1.2 hrests
    obtain ⟨rfl, hXY⟩ := printProperties_inj hX hY hps.2 hqs.2 hrest hrest' htexts
    refine ⟨?_, hXY⟩
    obtain ⟨name, value⟩ := p
    obtain ⟨name', value'⟩ := q
    simp only at hname hvalue
    rw [hname, hvalue]

/-! ## Trees -/

/-- What comes behind the properties: the first child, or the end of the node. -/
theorem notProperty_children {n : Nat} {nodes : List DeviceNode} {text : Bytes} (hnodes : allNodes Dumpable nodes)
    (h : printChildren (n + 1) nodes = some text) (u : Bytes) : NotProperty (n + 1) (text ++ (tabs n ++ nodeEnd ++ u)) := by
  cases nodes with
  | nil =>
    cases h
    exact notProperty_end n u
  | cons node nodes =>
    obtain ⟨name, phandle, properties, children⟩ := node
    simp only [printChildren, ofPrintNodes, Option.bind_eq_bind, Option.bind_eq_some_iff] at h
    obtain ⟨_, ⟨lines, -, inner, -, hnode⟩, rest, -, h⟩ := h
    cases hnode
    cases h
    have hname : DumpName name := hnodes.1.1.name
    have := notProperty_node (n := n + 1) hname (lines ++ inner ++ (tabs (n + 1) ++ nodeEnd) ++ rest ++
      (tabs n ++ nodeEnd ++ u))
    simpa using this

/-- A child begins behind one tab more than the end of the node. -/
theorem printChildren_start {n : Nat} {node : DeviceNode} {nodes : List DeviceNode} {text : Bytes}
    (h : printChildren n (node :: nodes) = some text) : ∃ u, text = tabs n ++ u := by
  obtain ⟨name, phandle, properties, children⟩ := node
  simp only [printChildren, ofPrintNodes, Option.bind_eq_bind, Option.bind_eq_some_iff] at h
  obtain ⟨_, ⟨lines, -, inner, -, hnode⟩, rest, -, h⟩ := h
  cases hnode
  cases h
  exact ⟨name.1 ++ nodeStart ++ lines ++ inner ++ (tabs n ++ nodeEnd) ++ rest, by simp⟩

mutual
/-- The text of a node tells the node, and where it ends. -/
theorem ofPrintNodes_inj {n : Nat} {u v : Bytes} : ∀ {a b : DeviceNode} {ta tb : Bytes}, a.All Dumpable → b.All Dumpable →
    a.All OwnPhandle → b.All OwnPhandle → ofPrintNodes n a = some ta → ofPrintNodes n b = some tb → ta ++ u = tb ++ v →
    a = b ∧ u = v
  | .node name phandle ps children, .node name' phandle' qs children', ta, tb, ha, hb, hpa, hpb, hta, htb, h => by
    simp only [ofPrintNodes, Option.bind_eq_bind, Option.bind_eq_some_iff] at hta htb
    obtain ⟨tp, htp, tc, htc, hta⟩ := hta
    obtain ⟨tq, htq, td, htd, htb⟩ := htb
    cases hta
    cases htb
    have hstart : name.1 ++ 32 :: (123 :: 10 :: (tp ++ (tc ++ (tabs n ++ nodeEnd ++ u)))) =
        name'.1 ++ 32 :: (123 :: 10 :: (tq ++ (td ++ (tabs n ++ nodeEnd ++ v)))) := by
      simpa [nodeStart] using h
    obtain ⟨rfl, -, hbody⟩ := name_append_inj ha.1.name hb.1.name (.inl rfl) (.inl rfl) hstart
    simp only [List.cons.injEq, true_and] at hbody
    obtain ⟨rfl, hchildren⟩ := printProperties_inj (notProperty_children ha.2 htc u) (notProperty_children hb.2 htd v)
      ha.1.properties hb.1.properties htp htq hbody
    obtain ⟨rfl, rfl⟩ := printChildren_inj ha.2 hb.2 hpa.2 hpb.2 htc htd hchildren
    obtain rfl : phandle = phandle' := hpa.1.trans hpb.1.symm
    exact ⟨rfl, rfl⟩

/-- The text of a node's children tells them; they end where the node does. -/
theorem printChildren_inj {n : Nat} {u v : Bytes} : ∀ {as bs : List DeviceNode} {ta tb : Bytes}, allNodes Dumpable as →
    allNodes Dumpable bs → allNodes OwnPhandle as → allNodes OwnPhandle bs → printChildren (n + 1) as = some ta →
    printChildren (n + 1) bs = some tb → ta ++ (tabs n ++ nodeEnd ++ u) = tb ++ (tabs n ++ nodeEnd ++ v) →
    as = bs ∧ u = v
  | [], [], _, _, _, _, _, _, hta, htb, h => by
    cases hta
    cases htb
    exact ⟨rfl, List.append_cancel_left h⟩
  | [], b :: bs, ta, tb, _, _, _, _, hta, htb, h => by
    cases hta
    obtain ⟨w, rfl⟩ := printChildren_start htb
    simp [tabs_succ, nodeEnd] at h
  | a :: as, [], ta, tb, _, _, _, _, hta, htb, h => by
    cases htb
    obtain ⟨w, rfl⟩ := printChildren_start hta
    simp [tabs_succ, nodeEnd] at h
  | a :: as, b :: bs, ta, tb, ha, hb, hpa, hpb, hta, htb, h => by
    simp only [printChildren, Option.bind_eq_bind, Option.bind_eq_some_iff] at hta htb
    obtain ⟨t, ht, rest, hrest, hta⟩ := hta
    obtain ⟨t', ht', rest', hrest', htb⟩ := htb
    cases hta
    cases htb
    have hfirst : t ++ (rest ++ (tabs n ++ nodeEnd ++ u)) = t' ++ (rest' ++ (tabs n ++ nodeEnd ++ v)) := by
      simpa using h
    obtain ⟨rfl, htexts⟩ := ofPrintNodes_inj ha.1 hb.1 hpa.1 hpb.1 ht ht' hfirst
    obtain ⟨rfl, huv⟩ := printChildren_inj ha.2 hb.2 hpa.2 hpb.2 hrest hrest' htexts
    exact ⟨rfl, huv⟩
end

/-! ## Blobs -/

/-- **The dump tells the tree**: blobs that `fdtdump` prints alike hold the same
tree, node by node and with its phandles. -/
theorem fdtdump_unambiguous {fdt fdt' : Bytes} {a b : DeviceNode} (ha : ofUnflattenDtb fdt = some (.ok a))
    (hb : ofUnflattenDtb fdt' = some (.ok b)) (hplain : a.All Dumpable) (hplain' : b.All Dumpable) {text : Bytes}
    (h : fdtdump fdt = some (text, 0)) (h' : fdtdump fdt' = some (text, 0)) : a = b := by
  simp only [fdtdump, ha, hb, Option.bind_eq_bind, Option.bind_some, Option.bind_eq_some_iff] at h h'
  obtain ⟨ta, hta, h⟩ := h
  obtain ⟨tb, htb, h'⟩ := h'
  cases h
  simp only [Option.pure_def, Option.some.injEq, Prod.mk.injEq, List.append_cancel_left_eq, and_true] at h'
  have htexts : ta ++ ([] : Bytes) = tb ++ [] := by rw [h']
  exact (ofPrintNodes_inj hplain hplain' (unflatten_own ha) (unflatten_own hb) hta htb htexts).1

/-- A root with one cell in it. -/
def oneCellTree : DeviceNode := .node .empty 0 [⟨cstr "a", [0, 0, 0, 7]⟩] []

theorem oneCellTree_dumpable : oneCellTree.All Dumpable := by
  refine ⟨⟨by simp [DumpName, DeviceNode.name, CString.empty], fun p hp => ?_⟩, trivial⟩
  obtain rfl : p = ⟨cstr "a", [0, 0, 0, 7]⟩ := by simpa [oneCellTree, DeviceNode.properties] using hp
  exact ⟨by unfold DumpName; decide +kernel, by unfold DumpValue; decide +kernel⟩

/-- One blob of it has an `FDT_NOP` in it, the other does not. -/
theorem fdtdump_unambiguous_nop : ∃ a b, ofUnflattenDtb (smallBlob [1, 0, 3, 4, 0, 7, 2, 9] [97, 0]) = some (.ok a) ∧
    ofUnflattenDtb (smallBlob [1, 0, 4, 3, 4, 0, 7, 2, 9] [97, 0]) = some (.ok b) ∧ a = b := by
  have ha : ofUnflattenDtb (smallBlob [1, 0, 3, 4, 0, 7, 2, 9] [97, 0]) = some (.ok oneCellTree) := by rfl
  have hb : ofUnflattenDtb (smallBlob [1, 0, 4, 3, 4, 0, 7, 2, 9] [97, 0]) = some (.ok oneCellTree) := by rfl
  have hta : fdtdump (smallBlob [1, 0, 3, 4, 0, 7, 2, 9] [97, 0]) =
      some ((cstr "/dts-v1/;\n/ \x7b\n\ta = <0x7>;\n\x7d;\n").1, 0) := by decide +kernel
  have htb : fdtdump (smallBlob [1, 0, 4, 3, 4, 0, 7, 2, 9] [97, 0]) =
      some ((cstr "/dts-v1/;\n/ \x7b\n\ta = <0x7>;\n\x7d;\n").1, 0) := by decide +kernel
  exact ⟨_, _, ha, hb, fdtdump_unambiguous ha hb oneCellTree_dumpable oneCellTree_dumpable hta htb⟩

end DtUtils
