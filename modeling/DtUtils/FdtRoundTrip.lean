/-
The flattener's output is read back as the tree that went in: what it writes
is the tokens of the tree, and `of_unflatten_dtb` accepts those. The root
comes back without a name, and phandles as the properties have them.
-/
import DtUtils.FdtEncoding
import DtUtils.Unflatten

namespace DtUtils
open Lib

/-! ## What comes back -/

/-- The phandle that a node's properties give: that of the last `phandle` of 4
bytes, 0 if there is none. -/
def phandleOf (properties : List Property) : UInt32 :=
  match (properties.filter fun p => p.name = cstr "phandle" ∧ p.value.length = 4).getLast? with
  | some p => cell 0 p.value
  | none => 0

mutual
/-- A node whose phandles are those of its properties. -/
def DeviceNode.reread : DeviceNode → DeviceNode
  | .node name _ properties children => .node name (phandleOf properties) properties (rereadNodes children)

def rereadNodes : List DeviceNode → List DeviceNode
  | [] => []
  | node :: nodes => node.reread :: rereadNodes nodes
end

/-- The same, for a root. -/
def DeviceNode.rereadRoot : DeviceNode → DeviceNode
  | .node _ _ properties children => .node .empty (phandleOf properties) properties (rereadNodes children)

mutual
/-- A node's tokens. -/
def nodeTokens : DeviceNode → List Token
  | .node name _ properties children =>
    .beginNode name :: (properties.map .prop ++ nodesTokens children) ++ [.endNode]

def nodesTokens : List DeviceNode → List Token
  | [] => []
  | node :: nodes => nodeTokens node ++ nodesTokens nodes
end

theorem Items.append {a b c : DeviceNode} {xs ys : List Token} (h : Items a xs b) (h' : Items b ys c) :
    Items a (xs ++ ys) c := by
  induction h with
  | nil => exact h'
  | prop _ ih => exact .prop (ih h')
  | @child n name body c' toks n' hbody _ _ ih =>
    have h := Items.child hbody (ih h')
    simpa using h

/-- Properties are added with the last phandle of theirs, or the one there was. -/
theorem items_properties (name : CString) (children : List DeviceNode) : ∀ (properties before : List Property),
    Items (.node name (phandleOf before) before children) (properties.map .prop)
      (.node name (phandleOf (before ++ properties)) (before ++ properties) children)
  | [], before => by simpa using Items.nil
  | p :: properties, before => by
    have hadd : (DeviceNode.node name (phandleOf before) before children).addProperty p =
        .node name (phandleOf (before ++ [p])) (before ++ [p]) children := by
      by_cases hp : p.name = cstr "phandle" ∧ p.value.length = 4
      · simp [DeviceNode.addProperty, phandleOf, List.filter_append, hp]
      · simp [DeviceNode.addProperty, phandleOf, List.filter_append, hp]
    have h := items_properties name children properties (before ++ [p])
    rw [← hadd, List.append_assoc] at h
    exact .prop h

mutual
/-- The contents of a node denote it, with the phandles of its properties. -/
theorem items_nodes (name : CString) (phandle : UInt32) (properties : List Property) :
    ∀ (nodes before : List DeviceNode), Items (.node name phandle properties before) (nodesTokens nodes)
      (.node name phandle properties (before ++ rereadNodes nodes))
  | [], before => by simpa [nodesTokens, rereadNodes] using Items.nil
  | node :: nodes, before => by
    have hrest := items_nodes name phandle properties nodes (before ++ [node.reread])
    have hadd : (DeviceNode.node name phandle properties before).addChild node.reread =
        .node name phandle properties (before ++ [node.reread]) := by simp only [DeviceNode.addChild]
    rw [List.append_assoc, ← hadd] at hrest
    obtain ⟨body, hname, hbody⟩ := items_node node
    rw [nodesTokens, hname, rereadNodes]
    have h := Items.child hbody hrest
    simpa using h

theorem items_node : ∀ node : DeviceNode, ∃ body, nodeTokens node = .beginNode node.name :: body ++ [.endNode] ∧
    Items (.node node.name 0 [] []) body node.reread
  | .node name _ properties children =>
    ⟨_, rfl, Items.append (items_properties name [] properties []) (items_nodes name _ properties children [])⟩
end

/-! ## What is written, as tokens -/

theorem be32At_of_hasAt {fdt : Bytes} {off n : Nat} (h : HasAt off (beBytes 4 n) fdt) (hn : n < 2 ^ 32) :
    be32At fdt off = some n := by
  have hle := h.le (by intro hnil; have := congrArg List.length hnil; simp at this)
  unfold HasAt at h
  rw [beBytes_length] at h hle
  rw [be32At, if_pos hle, h, beNat_beBytes_of_lt hn]

theorem stringAt_of_hasAt {fdt : Bytes} {pos : Nat} {s : CString} (h : HasAt pos (stringBytes s) fdt) :
    stringAt fdt pos = some s := by
  have hle := h.le (by simp [stringBytes])
  rw [stringBytes_length] at hle
  have hdrop : fdt.drop pos = s.1 ++ 0 :: fdt.drop (pos + (s.1.length + 1)) := by
    have hsplit := List.take_append_drop (s.1.length + 1) (fdt.drop pos)
    rw [← hsplit, List.drop_drop, ← stringBytes_length, show (fdt.drop pos).take (stringBytes s).length = stringBytes s
      from h]
    simp [stringBytes]
  have hof : CString.of (fdt.drop pos) = s := by
    apply Subtype.ext
    show (fdt.drop pos).takeWhile (· ≠ 0) = s.1
    rw [hdrop, List.takeWhile_append_of_pos (fun c hc => by simpa using fun h0 : c = 0 => s.2 (h0 ▸ hc))]
    simp
  rw [stringAt, hof]
  exact if_pos (by omega)

theorem TokensAt.append {fdt : Bytes} {f : FdtHeader} {limit a b c : Nat} {xs ys : List Token}
    (h : TokensAt fdt f limit a xs b) (h' : TokensAt fdt f limit b ys c) : TokensAt fdt f limit a (xs ++ ys) c := by
  induction h with
  | nil => exact h'
  | cons htok _ ih => exact .cons htok (ih h')

section
variable {fdt : Bytes} {f : FdtHeader} {limit : Nat}

theorem tokenAt_beginNode {dt : Nat} {name : CString} (h : HasAt dt (beginNodeBytes name) fdt) (hdt : 4 ∣ dt)
    (hend : dt + (beginNodeBytes name).length ≤ f.structEnd) :
    TokenAt fdt f limit dt (.beginNode name) (dt + (beginNodeBytes name).length) := by
  have hlen : (beginNodeBytes name).length = pad4 (4 + name.1.length + 1) := by
    simp [beginNodeBytes, Nat.add_assoc]
  rw [hlen, ← pad4_add hdt] at hend ⊢
  obtain ⟨h, _⟩ := hasAt_append.1 h
  obtain ⟨htag, hname⟩ := hasAt_append.1 h
  rw [beBytes_length] at hname
  exact .beginNode (be32At_of_hasAt htag (by decide)) (stringAt_of_hasAt hname) hend

theorem tokenAt_prop {dt off : Nat} {p : Property} (h : HasAt dt (propertyBytes p off) fdt)
    (hstr : HasAt (f.offDtStrings + off) (stringBytes p.name) fdt) (hdt : 4 ∣ dt)
    (hend : dt + (propertyBytes p off).length ≤ f.structEnd)
    (hoff : off + (stringBytes p.name).length ≤ f.sizeDtStrings)
    (hsize : f.sizeDtStrings < 2 ^ 32) (hlimit : f.offDtStrings + f.sizeDtStrings ≤ limit) :
    TokenAt fdt f limit dt (.prop p) (dt + (propertyBytes p off).length) := by
  have hE : f.structEnd < 2 ^ 32 := Nat.mod_lt _ (by decide)
  have hlen : (propertyBytes p off).length = pad4 (12 + p.value.length) := by
    simp only [propertyBytes, padded4_length, List.length_append, beBytes_length]
  have hpad := le_pad4 (12 + p.value.length)
  rw [stringBytes_length] at hoff
  rw [hlen] at hend ⊢
  obtain ⟨h, _⟩ := hasAt_append.1 h
  obtain ⟨h, hvalue⟩ := hasAt_append.1 h
  obtain ⟨h, hnameoff⟩ := hasAt_append.1 h
  obtain ⟨htag, hlength⟩ := hasAt_append.1 h
  simp only [List.length_append, beBytes_length] at hlength hnameoff hvalue
  have hlength := be32At_of_hasAt hlength (by omega)
  have hnameoff := be32At_of_hasAt hnameoff (by omega)
  rw [← pad4_add hdt] at hend ⊢
  have htok : TokenAt fdt f limit dt (.prop ⟨p.name, slice (dt + 12) p.value.length fdt⟩) _ :=
    .prop (be32At_of_hasAt htag (by decide)) hlength hnameoff (by omega) (stringAt_of_hasAt hstr) (by omega) hend
  rwa [show slice (dt + 12) p.value.length fdt = p.value from hvalue] at htok

theorem tokenAt_endNode {dt : Nat} (h : HasAt dt (beBytes 4 fdtEndNode) fdt) (hdt : 4 ∣ dt)
    (hend : dt + 4 ≤ f.structEnd) : TokenAt fdt f limit dt .endNode (dt + 4) := by
  have hpad : pad4 (dt + 4) = dt + 4 := pad4_add hdt
  have htok : TokenAt fdt f limit dt .endNode (pad4 (dt + 4)) :=
    .endNode (be32At_of_hasAt h (by decide)) (by omega)
  rwa [hpad] at htok

theorem dvd_propertiesBytes : ∀ (properties : List Property) (off : Nat), 4 ∣ (propertiesBytes properties off).length
  | [], _ => Nat.dvd_zero 4
  | p :: properties, off => by
    rw [propertiesBytes, List.length_append, propertyBytes, padded4_length]
    exact Nat.dvd_add (dvd_pad4 _) (dvd_propertiesBytes properties _)

mutual
theorem dvd_nodeBytes : ∀ (node : DeviceNode) (off : Nat), 4 ∣ (nodeBytes node off).length
  | .node name _ properties children, off => by
    rw [nodeBytes, List.length_append, List.length_append, List.length_append, beBytes_length, beginNodeBytes,
      padded4_length]
    exact Nat.dvd_add (Nat.dvd_add (Nat.dvd_add (dvd_pad4 _) (dvd_propertiesBytes properties off))
      (dvd_nodesBytes children _)) (Nat.dvd_refl 4)

theorem dvd_nodesBytes : ∀ (nodes : List DeviceNode) (off : Nat), 4 ∣ (nodesBytes nodes off).length
  | [], _ => Nat.dvd_zero 4
  | node :: nodes, off => by
    rw [nodesBytes, List.length_append]
    exact Nat.dvd_add (dvd_nodeBytes node off) (dvd_nodesBytes nodes _)
end

theorem tokensAt_properties (hsize : f.sizeDtStrings < 2 ^ 32) (hlimit : f.offDtStrings + f.sizeDtStrings ≤ limit) :
    ∀ (properties : List Property) {dt off : Nat}, HasAt dt (propertiesBytes properties off) fdt →
      HasAt (f.offDtStrings + off) (propertiesStrings properties) fdt → 4 ∣ dt →
      dt + (propertiesBytes properties off).length ≤ f.structEnd →
      off + (propertiesStrings properties).length ≤ f.sizeDtStrings →
      TokensAt fdt f limit dt (properties.map .prop) (dt + (propertiesBytes properties off).length)
  | [], _, _, _, _, _, _, _ => .nil
  | p :: properties, dt, off, h, hstr, hdt, hend, hoff => by
    simp only [propertiesBytes, propertiesStrings, List.flatMap_cons, List.length_append,
        ← Nat.add_assoc] at h hstr hend hoff ⊢
    obtain ⟨h₁, h₂⟩ := hasAt_append.1 h
    obtain ⟨hs₁, hs₂⟩ := hasAt_append.1 hstr
    have hdvd : 4 ∣ (propertyBytes p off).length := by
      rw [propertyBytes, padded4_length]
      exact dvd_pad4 _
    rw [Nat.add_assoc] at hs₂
    have hrest := tokensAt_properties hsize hlimit properties h₂ hs₂ (Nat.dvd_add hdt hdvd) (by omega)
      (by rw [propertiesStrings]; omega)
    exact .cons (tokenAt_prop h₁ hs₁ hdt (by omega) (by omega) hsize hlimit) hrest

mutual
/-- The encoding of a node is read as its tokens. -/
theorem tokensAt_node (hsize : f.sizeDtStrings < 2 ^ 32) (hlimit : f.offDtStrings + f.sizeDtStrings ≤ limit) :
    ∀ (node : DeviceNode) {dt off : Nat}, HasAt dt (nodeBytes node off) fdt →
      HasAt (f.offDtStrings + off) (nodeStrings node) fdt → 4 ∣ dt →
      dt + (nodeBytes node off).length ≤ f.structEnd → off + (nodeStrings node).length ≤ f.sizeDtStrings →
      TokensAt fdt f limit dt (nodeTokens node) (dt + (nodeBytes node off).length)
  | .node name _ properties children, dt, off, h, hstr, hdt, hend, hoff => by
    simp only [nodeBytes, nodeStrings, List.length_append, beBytes_length, ← Nat.add_assoc] at h hstr hend hoff ⊢
    obtain ⟨h, hendNode⟩ := hasAt_append.1 h
    obtain ⟨h, hchildren⟩ := hasAt_append.1 h
    obtain ⟨hbegin, hproperties⟩ := hasAt_append.1 h
    obtain ⟨hs₁, hs₂⟩ := hasAt_append.1 hstr
    simp only [List.length_append, ← Nat.add_assoc] at hchildren hendNode
    rw [Nat.add_assoc] at hs₂
    have hdvd₁ : 4 ∣ dt + (beginNodeBytes name).length := by
      rw [beginNodeBytes, padded4_length]
      exact Nat.dvd_add hdt (dvd_pad4 _)
    have hdvd₂ := Nat.dvd_add hdvd₁ (dvd_propertiesBytes properties off)
    have hdvd₃ := Nat.dvd_add hdvd₂ (dvd_nodesBytes children (off + (propertiesStrings properties).length))
    have ht₁ : TokenAt fdt f limit dt _ _ := tokenAt_beginNode hbegin hdt (by omega)
    have ht₂ := tokensAt_properties hsize hlimit properties hproperties hs₁ hdvd₁ (by omega) (by omega)
    have ht₃ := tokensAt_nodes hsize hlimit children hchildren hs₂ hdvd₂ (by omega) (by omega)
    have ht₄ : TokenAt fdt f limit _ _ _ := tokenAt_endNode hendNode hdvd₃ (by omega)
    exact .cons ht₁ ((ht₂.append ht₃).append (.cons ht₄ .nil))

theorem tokensAt_nodes (hsize : f.sizeDtStrings < 2 ^ 32) (hlimit : f.offDtStrings + f.sizeDtStrings ≤ limit) :
    ∀ (nodes : List DeviceNode) {dt off : Nat}, HasAt dt (nodesBytes nodes off) fdt →
      HasAt (f.offDtStrings + off) (nodesStrings nodes) fdt → 4 ∣ dt →
      dt + (nodesBytes nodes off).length ≤ f.structEnd → off + (nodesStrings nodes).length ≤ f.sizeDtStrings →
      TokensAt fdt f limit dt (nodesTokens nodes) (dt + (nodesBytes nodes off).length)
  | [], _, _, _, _, _, _, _ => .nil
  | node :: nodes, dt, off, h, hstr, hdt, hend, hoff => by
    simp only [nodesBytes, nodesStrings, nodesTokens, List.length_append, ← Nat.add_assoc] at h hstr hend hoff ⊢
    obtain ⟨h₁, h₂⟩ := hasAt_append.1 h
    obtain ⟨hs₁, hs₂⟩ := hasAt_append.1 hstr
    rw [Nat.add_assoc] at hs₂
    have ht₁ := tokensAt_node hsize hlimit node h₁ hs₁ hdt (by omega) (by omega)
    have ht₂ := tokensAt_nodes hsize hlimit nodes h₂ hs₂ (Nat.dvd_add hdt (dvd_nodeBytes node off)) (by omega)
        (by omega)
    exact ht₁.append ht₂
end

end

/-! ## The whole blob -/

mutual
theorem nop_not_mem_nodeTokens : ∀ node : DeviceNode, Token.nop ∉ nodeTokens node
  | .node _ _ properties children => by
    simp [nodeTokens, nop_not_mem_nodesTokens children]

theorem nop_not_mem_nodesTokens : ∀ nodes : List DeviceNode, Token.nop ∉ nodesTokens nodes
  | [] => by simp [nodesTokens]
  | node :: nodes => by
    simp [nodesTokens, nop_not_mem_nodeTokens node, nop_not_mem_nodesTokens nodes]
end

/-- A tree's tokens are one node, which denotes the tree as it comes back. -/
theorem oneNode_nodeTokens (node : DeviceNode) : OneNode (nodeTokens node) node.rereadRoot := by
  have hnop : meaningful (nodeTokens node) = nodeTokens node := by
    refine List.filter_eq_self.2 fun tok htok => ?_
    simpa using fun h : tok = .nop => nop_not_mem_nodeTokens node (h ▸ htok)
  obtain ⟨name, phandle, properties, children⟩ := node
  refine ⟨name, properties.map .prop ++ nodesTokens children, hnop.trans (by rw [nodeTokens]), ?_⟩
  exact (items_properties .empty [] properties []).append (items_nodes .empty _ properties children [])

/-- What lies inside a small structure block is not too long for an `int`. -/
theorem TokensAt.small {fdt : Bytes} {f : FdtHeader} {limit dt e : Nat} {toks : List Token}
    (h : TokensAt fdt f limit dt toks e) (hend : f.structEnd < 2 ^ 31) : ∀ tok ∈ toks, tok.Small := by
  induction h with
  | nil => simp
  | @cons dt _ _ _ _ htok _ ih =>
    refine List.forall_mem_cons.2 ⟨?_, ih⟩
    cases htok with
    | beginNode | endNode | nop => trivial
    | @prop len nameoff name _ _ _ _ _ _ hpad =>
      have hle := slice_length_le (dt + 12) len fdt
      have := le_pad4 (dt + (12 + len))
      show (slice (dt + 12) len fdt).length < 2 ^ 31
      omega

theorem Written.start : Written .start (List.replicate (40 + 16 * 16) 0) [] where
  dt := by
    rw [zeroed, List.replicate_append_replicate, List.length_replicate]
    rfl
  dt_le := by
    rw [List.length_replicate]
    decide
  aligned := by
    rw [List.length_replicate]
    decide
  dtNextofs := by
    rw [List.length_replicate]
    rfl
  strings := rfl
  strings_le := by decide
  strNextofs := rfl
  reallocs := rfl

/-- The blob: header, memory reservations, tokens, strings, and what is left of
the buffer. -/
theorem Written.finish {fdt : Fdt} {junk : Junk} {bytes S : Bytes}
    (h : Written fdt (List.replicate (40 + 16 * 16) 0 ++ bytes) S) :
    ∃ tail : Bytes, tail.length ≤ fdtBufsize ∧ flattenFinish junk fdt =
        some (some (flattenHeader (40 + 16 * 16 + bytes.length + 4) S.length ++
      List.replicate (16 * 16) 0 ++ bytes ++ beBytes 4 fdtEnd ++ S ++ tail)) := by
  have hbuf : fdtBufsize = 65536 := rfl
  have hdtle := h.dt_le
  have hstrle := h.strings_le
  obtain ⟨D, hD⟩ : ∃ D, D = List.replicate (40 + 16 * 16) (0 : UInt8) ++ bytes := ⟨_, rfl⟩
  have hlen : D.length = 40 + 16 * 16 + bytes.length := by rw [hD, List.length_append, List.length_replicate]
  have haligned := h.aligned
  have hdt := h.dt
  have hnext := h.dtNextofs
  rw [← hD] at hdtle haligned hdt hnext
  have hlen' : (D ++ beBytes 4 fdtEnd).length = D.length + 4 := by rw [List.length_append, beBytes_length]
  have hwrite : fdt.write fdt.dtNextofs (fdt32 fdtEnd) = some { fdt with dt := zeroed (D ++ beBytes 4 fdtEnd) } := by
    rw [fdt32_natCast (by decide)]
    exact write_zeroed hdt hnext (by rw [beBytes_length]; omega)
  have hofs : dtNextOfs fdt.dtNextofs 4 = (D ++ beBytes 4 fdtEnd).length := by
    rw [hnext, dtNextOfs_eq haligned hdtle, hlen']
    rfl
  have hstrings : fdt.strings.take fdt.strNextofs = S := by rw [h.strings, h.strNextofs, zeroed, List.take_left]
  obtain ⟨X, hX⟩ : ∃ X, X = D ++ beBytes 4 fdtEnd := ⟨_, rfl⟩
  rw [← hX] at hwrite hofs hlen'
  have hzero : (zeroed X).length = fdtBufsize := zeroed_length (by omega)
  obtain ⟨dt, hdt'⟩ : ∃ dt, dt = if sub32 (zeroed X).length X.length < S.length then
      realloc (junk (fdt.dtReallocs + fdt.strReallocs)) ((X.length + S.length) % 2 ^ 32) (zeroed X) else zeroed X :=
    ⟨_, rfl⟩
  -- Whether or not the buffer is reallocated, it begins with what was written.
  have htake : dt.take X.length = X ∧ X.length + S.length ≤ dt.length ∧ dt.length ≤ fdtBufsize + S.length := by
    have hsub : sub32 (zeroed X).length X.length = fdtBufsize - X.length := by
      rw [hzero, sub32_of_le (by omega) (by decide)]
    rw [hdt', hsub]
    have hfront : (zeroed X).take X.length = X := by rw [zeroed, List.take_left]
    by_cases hgrow : fdtBufsize - X.length < S.length
    · rw [if_pos hgrow, Nat.mod_eq_of_lt (by omega), realloc_take (by omega) (by omega), realloc_length]
      exact ⟨hfront, le_rfl, by omega⟩
    · rw [if_neg hgrow]
      exact ⟨hfront, by omega, by omega⟩
  have hne : dt ≠ [] := by
    intro hnil
    rw [hnil] at htake
    simp only [List.length_nil] at htake
    omega
  have hsplice : splice X.length S dt = X ++ S ++ dt.drop (X.length + S.length) := by
    rw [splice, htake.1]
  have hX' : X = List.replicate 40 0 ++ (List.replicate (16 * 16) 0 ++ bytes ++ beBytes 4 fdtEnd) := by
    rw [hX, hD, ← List.replicate_append_replicate]
    simp only [List.append_assoc]
  have hheader : (flattenHeader X.length S.length).length = 40 := by
    simp only [flattenHeader, List.flatMap_cons, List.flatMap_nil, List.length_append, beBytes_length, List.length_nil]
  have hblob : splice 0 (flattenHeader X.length S.length) (splice X.length S dt) = flattenHeader X.length S.length ++
      List.replicate (16 * 16) 0 ++ bytes ++ beBytes 4 fdtEnd ++ S ++ dt.drop (X.length + S.length) := by
    have hsplit := @splice_append _ 0 [] (List.replicate 40 (0 : UInt8)) (List.replicate (16 * 16) 0 ++ bytes ++
      beBytes 4 fdtEnd ++ S ++ dt.drop (X.length + S.length)) (flattenHeader X.length S.length) rfl (by
        rw [hheader, List.length_replicate])
    rw [hsplice]
    simp only [List.nil_append, List.append_assoc] at hsplit ⊢
    rw [← hsplit]
    congr 1
    rw [hX']
    simp only [List.append_assoc]
  refine ⟨dt.drop (X.length + S.length), by rw [List.length_drop]; omega, ?_⟩
  have hXlen : 40 + 16 * 16 + bytes.length + 4 = X.length := by omega
  unfold flattenFinish
  rw [hwrite]
  simp only
  rw [hofs, h.strNextofs, ← hdt', if_neg hne, hXlen, ← hblob]
  rw [if_pos ⟨by rw [h.strings, zeroed_length hstrle]; exact hstrle, htake.2.1, by omega⟩, ← h.strNextofs, hstrings]

/-- No buffer grows for a tree whose encoding leaves 1024 bytes of both. -/
theorem neverGrows_of_room (junk : Junk) {node : DeviceNode} (hnames : node.All RoomyNames)
    (hdt : 40 + 16 * 16 + (nodeBytes node 0).length + 1024 ≤ fdtBufsize)
    (hstr : (nodeStrings node).length + 1024 ≤ fdtBufsize) : NeverGrows junk node := by
  have h := @Written.node_of_room junk _ _ _ _ .start hnames (by rw [List.length_replicate]; exact hdt)
    (by rw [List.length_nil, Nat.zero_add]; exact hstr)
  exact Nat.add_eq_zero_iff.1 h

/-- **The flattener's output is a well-formed blob that denotes the tree.** -/
theorem flatten_denotes {junk : Junk} {node : DeviceNode} (hnames : node.All CopiedNames)
    (hok : node.All RoomyNames ∨ ofFlattenDtb junk node ≠ none) (hgrow : NeverGrows junk node) :
    ∃ blob f, ofFlattenDtb junk node = some (some blob) ∧ FdtBlob blob f ∧
      40 ≤ f.totalsize ∧ f.structEnd < 2 ^ 31 ∧ Denotes blob f node.rereadRoot := by
  have hok : node.All RoomyNames ∨ (flattenNode junk node .start).2 ≠ none := by
    refine hok.imp_right fun hok hnone => hok ?_
    unfold ofFlattenDtb
    generalize flattenNode junk node .start = r at hnone
    obtain ⟨fdt, o⟩ := r
    obtain rfl : o = none := hnone
    rfl
  obtain ⟨fdt, heq, h⟩ := Written.start.node hnames hok
    (show (flattenNode junk node .start).1.dtReallocs + (flattenNode junk node .start).1.strReallocs = 0 by
      rw [hgrow.1, hgrow.2])
  rw [List.length_nil, List.nil_append] at h
  obtain ⟨tail, htail, hfinish⟩ := @Written.finish _ junk _ _ h
  have hbuf : fdtBufsize = 65536 := rfl
  have hdtle := h.dt_le
  have hstrle := h.strings_le
  rw [List.length_append, List.length_replicate] at hdtle
  obtain ⟨bytes, hbytes⟩ : ∃ bytes, bytes = nodeBytes node 0 := ⟨_, rfl⟩
  obtain ⟨S, hS⟩ : ∃ S, S = nodeStrings node := ⟨_, rfl⟩
  obtain ⟨ofs, hofs⟩ : ∃ ofs, ofs = 40 + 16 * 16 + bytes.length + 4 := ⟨_, rfl⟩
  rw [← hbytes, ← hS, ← hofs] at hfinish
  rw [← hbytes] at hdtle
  rw [← hS] at hstrle
  obtain ⟨blob, hblob⟩ : ∃ blob, blob = flattenHeader ofs S.length ++ List.replicate (16 * 16) 0 ++ bytes ++
      beBytes 4 fdtEnd ++ S ++ tail := ⟨_, rfl⟩
  have hheader : (flattenHeader ofs S.length).length = 40 := by
    simp only [flattenHeader, List.flatMap_cons, List.flatMap_nil, List.length_append, beBytes_length, List.length_nil]
  have hlen : blob.length = ofs + S.length + tail.length := by
    simp only [hblob, List.length_append, hheader, List.length_replicate, beBytes_length]
    omega
  have hflatten : ofFlattenDtb junk node = some (some blob) := by
    unfold ofFlattenDtb
    rw [heq]
    simp only
    rw [if_neg (by simp), hfinish, hblob]
  -- Where everything is.
  have hwords : HasAt 0 (flattenHeader ofs S.length) blob := by
    rw [hblob]
    simp only [List.append_assoc]
    exact hasAt_mid (a := []) rfl
  have hstruct : HasAt (40 + 16 * 16) (bytes ++ beBytes 4 fdtEnd) blob := by
    have h := hasAt_mid (a := flattenHeader ofs S.length ++ List.replicate (16 * 16) 0) (b := bytes ++ beBytes 4 fdtEnd)
      (c := S ++ tail) (by rw [List.length_append, hheader, List.length_replicate])
    rw [hblob]
    simpa only [List.append_assoc] using h
  have hstrings : HasAt ofs S blob := by
    rw [hblob]
    refine hasAt_mid ?_
    simp only [List.length_append, hheader, List.length_replicate, beBytes_length]
    omega
  simp only [flattenHeader, List.flatMap_cons, List.flatMap_nil, hasAt_append, beBytes_length, Nat.zero_add,
    Nat.reduceAdd] at hwords
  obtain ⟨hmagic, htotal, hoff, hoffs, _, hversion, _, _, hsizes, hsize, _⟩ := hwords
  rw [Nat.mod_eq_of_lt (by omega)] at htotal
  rw [sub32_of_le (by omega) (by omega)] at hsize
  have htotal := be32At_of_hasAt htotal (by omega)
  have hsize := be32At_of_hasAt hsize (by omega)
  have hoffs := be32At_of_hasAt hoffs (by omega)
  have hsizes := be32At_of_hasAt hsizes (by omega)
  have hat : FdtBlob blob ⟨ofs + S.length, 40 + 16 * 16, ofs - (40 + 16 * 16), ofs, S.length⟩ := {
    magic := be32At_of_hasAt hmagic (by decide)
    version := be32At_of_hasAt hversion (by decide)
    totalsize := htotal
    offDtStruct := be32At_of_hasAt hoff (show 40 + 16 * 16 < 2 ^ 32 by decide)
    sizeDtStruct := hsize
    offDtStrings := hoffs
    sizeDtStrings := hsizes
    struct_le := by
      simp only
      omega
    strings_le := le_rfl
    totalsize_le := by
      simp only
      omega
    length_lt := by omega }
  obtain ⟨f, hf⟩ : ∃ f : FdtHeader, f = ⟨ofs + S.length, 40 + 16 * 16, ofs - (40 + 16 * 16), ofs, S.length⟩ := ⟨_, rfl⟩
  have hfields : f.totalsize = ofs + S.length ∧ f.offDtStruct = 40 + 16 * 16 ∧
      f.sizeDtStruct = ofs - (40 + 16 * 16) ∧ f.offDtStrings = ofs ∧ f.sizeDtStrings = S.length := by
    rw [hf]
    exact ⟨rfl, rfl, rfl, rfl, rfl⟩
  rw [← hf] at hat
  have hend := hat.structEnd_eq
  refine ⟨blob, f, hflatten, hat, by omega, by omega, nodeTokens node, 40 + 16 * 16 + bytes.length, ?_,
    oneNode_nodeTokens node, ?_, by omega⟩
  · have hnode := (hasAt_append.1 hstruct).1
    rw [hbytes] at hnode
    rw [← hfields.2.2.2.1, hS] at hstrings
    have htoks := tokensAt_node (f := f) (by omega) le_rfl node hnode hstrings (by decide)
      (by rw [← hbytes]; omega) (by rw [← hS]; omega)
    rw [hfields.2.1, hbytes]
    exact htoks
  · exact be32At_of_hasAt (hasAt_append.1 hstruct).2 (by decide)

/-- **A tree is read back from what it is flattened to**, with its nodes,
properties, names and values in their order; the root is without a name, and
each phandle is that of the node's property. -/
theorem flatten_unflatten {junk : Junk} {node : DeviceNode} (hnames : node.All ShortNames)
    (hgrow : NeverGrows junk node) :
    ∃ blob, ofFlattenDtb junk node = some (some blob) ∧ ofUnflattenDtb blob = some (.ok node.rereadRoot) := by
  have hroomy : node.All RoomyNames := hnames.imp fun _ => ShortNames.roomy
  obtain ⟨blob, f, hflatten, hblob, -, hend, toks, e, htoks, hnode, htag, hin⟩ :=
    flatten_denotes (hroomy.imp fun _ => RoomyNames.copied) (.inl hroomy) hgrow
  have htoks := htoks.mono (hblob.strings_le.trans hblob.totalsize_le)
  exact ⟨blob, hflatten, hblob.unflatten htoks hnode htag (htoks.small hend)⟩

/-- A root with a property and a child with its phandle. -/
def exampleTree : DeviceNode :=
  .node .empty 0 [⟨cstr "model", [98, 0]⟩] [.node (cstr "leds") 7 [⟨cstr "phandle", [0, 0, 0, 7]⟩] []]

theorem shortNames_exampleTree : exampleTree.All ShortNames := by
  simp only [exampleTree, DeviceNode.All, allNodes, ShortNames, ShortName, DeviceNode.name, DeviceNode.properties]
  decide

theorem flatten_unflatten_exampleTree :
    ∃ blob, ofFlattenDtb (fun _ _ => 0xa5) exampleTree = some (some blob) ∧
      ofUnflattenDtb blob = some (.ok exampleTree) :=
  flatten_unflatten shortNames_exampleTree
    (neverGrows_of_room _ (shortNames_exampleTree.imp fun _ => ShortNames.roomy) (by decide) (by decide))

/-! ## Up to `totalsize` -/

theorem be32At_take_of_le {fdt : Bytes} {k off n : Nat} (h : be32At fdt off = some n) (hk : off + 4 ≤ k) :
    be32At (fdt.take k) off = some n := by
  have hle := be32At_le h
  rw [← h]
  unfold be32At
  rw [if_pos (by rw [List.length_take]; omega), if_pos hle, slice_take hk]

theorem stringAt_take_of_lt {fdt : Bytes} {k pos : Nat} {s : CString} (h : stringAt fdt pos = some s)
    (hk : pos + s.1.length < k) : stringAt (fdt.take k) pos = some s := by
  obtain ⟨rfl, hlt⟩ := stringAt_eq h
  have hs : CString.of ((fdt.take k).drop pos) = CString.of (fdt.drop pos) := by
    apply Subtype.ext
    simp only [CString.of] at hk ⊢
    rw [takeWhile_drop_take]
    exact List.take_of_length_le (by omega)
  rw [stringAt, hs]
  exact if_pos (by rw [List.length_take]; omega)

theorem TokensAt.take {fdt : Bytes} {f : FdtHeader} {limit k dt e : Nat} {toks : List Token}
    (h : TokensAt fdt f limit dt toks e) (hend : f.structEnd ≤ k) (hlimit : limit ≤ k) :
    TokensAt (fdt.take k) f limit dt toks e := by
  induction h with
  | nil => exact .nil
  | @cons dt _ _ _ _ htok _ ih =>
    refine .cons ?_ ih
    cases htok with
    | @beginNode name htag hname hin =>
      have hpad := le_pad4 (dt + (4 + name.1.length + 1))
      exact .beginNode (be32At_take_of_le htag (by omega)) (stringAt_take_of_lt hname (by omega)) hin
    | endNode htag hin =>
      have hpad := le_pad4 (dt + 4)
      exact .endNode (be32At_take_of_le htag (by omega)) hin
    | @prop len nameoff name htag hlen hoff hle hname hlt hin =>
      have hpad := le_pad4 (dt + (12 + len))
      have hvalue : slice (dt + 12) len (fdt.take k) = slice (dt + 12) len fdt := slice_take (by omega)
      rw [← hvalue]
      exact .prop (be32At_take_of_le htag (by omega)) (be32At_take_of_le hlen (by omega))
        (be32At_take_of_le hoff (by omega)) hle (stringAt_take_of_lt hname (by omega)) hlt hin
    | nop htag hin =>
      have hpad := le_pad4 (dt + 4)
      exact .nop (be32At_take_of_le htag (by omega)) hin

theorem FdtBlob.take {fdt : Bytes} {f : FdtHeader} (h : FdtBlob fdt f) (h40 : 40 ≤ f.totalsize) :
    FdtBlob (fdt.take f.totalsize) f where
  magic := be32At_take_of_le h.magic (by omega)
  version := be32At_take_of_le h.version (by omega)
  totalsize := be32At_take_of_le h.totalsize (by omega)
  offDtStruct := be32At_take_of_le h.offDtStruct (by omega)
  sizeDtStruct := be32At_take_of_le h.sizeDtStruct (by omega)
  offDtStrings := be32At_take_of_le h.offDtStrings (by omega)
  sizeDtStrings := be32At_take_of_le h.sizeDtStrings (by omega)
  struct_le := h.struct_le
  strings_le := h.strings_le
  totalsize_le := by
    rw [List.length_take]
    have := h.totalsize_le
    omega
  length_lt := by
    rw [List.length_take]
    have := h.length_lt
    omega

/-- A tree that is flattened is read back from the blob's first `totalsize`
bytes. -/
theorem flatten_take {junk : Junk} {node : DeviceNode} {blob : Bytes} (hnames : node.All CopiedNames)
    (hgrow : NeverGrows junk node) (hflat : ofFlattenDtb junk node = some (some blob)) :
    ∃ n, be32At blob 4 = some n ∧ n ≤ blob.length ∧ be32At (blob.take n) 4 = some n ∧
      ofUnflattenDtb (blob.take n) = some (.ok node.rereadRoot) := by
  obtain ⟨blob', f, hflatten, hblob, h40, hend, toks, e, htoks, hnode, htag, hin⟩ :=
    flatten_denotes hnames (.inr (by rw [hflat]; simp)) hgrow
  obtain rfl : blob' = blob := by
    rw [hflat] at hflatten
    simpa using hflatten.symm
  have hcut := hblob.take h40
  have hstruct := hblob.struct_le
  have htoks := htoks.take (k := f.totalsize) (by rw [hblob.structEnd_eq]; omega) hblob.strings_le
  have hlimit := hcut.strings_le.trans hcut.totalsize_le
  exact ⟨f.totalsize, hblob.totalsize, hblob.totalsize_le, hcut.totalsize,
    hcut.unflatten (htoks.mono hlimit) hnode (be32At_take_of_le htag (by omega)) ((htoks.mono hlimit).small hend)⟩

end DtUtils
