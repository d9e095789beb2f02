/-
`of_parse_partition`: where a partition lies on its device, as the node's `reg`
and the nearest ancestors' `#address-cells` and `#size-cells` say. None of the
three is checked for its length (`partition_sound_iff`). `none` results are
reads outside a property.
-/
import DtUtils.DeviceTree

namespace DtUtils
open Lib

/-! ## Cells -/

/-- The first cell of a property as an `int`. -/
def firstCell (p : Property) : Option Int := if p.value.length < 4 then none else some (cInt (beNat (p.value.take 4)))

/-- The loop of `of_n_addr_cells` and `of_n_size_cells`. The ancestors of the
node are listed from its parent on; a root is looked at itself. -/
def ofNCells (propname : CString) : DeviceNode → List DeviceNode → Option Int
  | np, [] =>
    match ofFindProperty np propname with
    | some p => firstCell p
    | none => some 1
  | _, parent :: ancestors =>
    match ofFindProperty parent propname with
    | some p => firstCell p
    | none => if ancestors = [] then some 1 else ofNCells propname parent ancestors

/-- `of_n_addr_cells` -/
def ofNAddrCells : DeviceNode → List DeviceNode → Option Int := ofNCells (cstr "#address-cells")

/-- `of_n_size_cells` -/
def ofNSizeCells : DeviceNode → List DeviceNode → Option Int := ofNCells (cstr "#size-cells")

/-- The loop of `of_read_number`. -/
def readNumberLoop : Nat → UInt64 → Bytes → Option UInt64
  | 0, r, _ => some r
  | size + 1, r, cells =>
    if cells.length < 4 then none
    else readNumberLoop size ((r <<< 32) ||| .ofNat (beNat (cells.take 4))) (cells.drop 4)

/-- `of_read_number`. A negative size counts down through all of `int`, which is
more than any property holds. -/
def ofReadNumber (cells : Bytes) (size : Int) : Option UInt64 :=
  if size < 0 then none else readNumberLoop size.toNat 0 cells

/-- Conversion to `off_t`. -/
def offT (x : UInt64) : Int := if x.toNat < 2 ^ 63 then x.toNat else x.toNat - 2 ^ 64

/-- `of_parse_partition`: the offset and the size. -/
def ofParsePartition (node : DeviceNode) (ancestors : List DeviceNode) : Option (Except Int (Int × Nat)) :=
  match ofFindProperty node (cstr "reg") with
  | none => some (.error (-EINVAL))
  | some reg => do
    let aCells ← ofNAddrCells node ancestors
    let sCells ← ofNSizeCells node ancestors
    let offset ← ofReadNumber reg.value aCells
    let size ← ofReadNumber (reg.value.drop (4 * aCells.toNat)) sCells
    return .ok (offT offset, size.toNat)

/-! ## What a partition node says -/

/-- The nodes whose properties count: the ancestors, or a root itself. -/
def cellsNodes (node : DeviceNode) (ancestors : List DeviceNode) : List DeviceNode :=
  if ancestors = [] then [node] else ancestors

/-- The number of cells that the first of these nodes with the property gives,
1 without any. -/
def CellCount (propname : CString) (node : DeviceNode) (ancestors : List DeviceNode) (n : Nat) : Prop :=
  match (cellsNodes node ancestors).findSome? fun np => ofFindProperty np propname with
  | some p => 4 ≤ p.value.length ∧ n = beNat (p.value.take 4)
  | none => n = 1

/-- The node's `reg` encodes this offset and size. -/
structure Encodes (node : DeviceNode) (ancestors : List DeviceNode) (reg : Property) (a s offset size : Nat) :
    Prop where
  found : ofFindProperty node (cstr "reg") = some reg
  aCells : CellCount (cstr "#address-cells") node ancestors a
  sCells : CellCount (cstr "#size-cells") node ancestors s
  fits : 4 * (a + s) ≤ reg.value.length
  offset : offset = beNat (slice 0 (4 * a) reg.value)
  size : size = beNat (slice (4 * a) (4 * s) reg.value)

/-- `of_parse_partition` stays inside the properties and returns what the node
encodes, or an error if it encodes nothing. -/
def PartitionSound (node : DeviceNode) (ancestors : List DeviceNode) : Prop :=
  ∃ r, ofParsePartition node ancestors = some r ∧ (∀ e, r = .error e → e < 0) ∧
    ∀ offset size, r = .ok (offset, size) ↔
      ∃ reg a s, ∃ n : Nat, offset = n ∧ Encodes node ancestors reg a s n size

/-- There is no `reg`, or it encodes numbers that fit an `off_t` and a `size_t`. -/
def PartitionFits (node : DeviceNode) (ancestors : List DeviceNode) : Prop :=
  ofFindProperty node (cstr "reg") = none ∨
    ∃ reg a s offset size, Encodes node ancestors reg a s offset size ∧ a < 2 ^ 31 ∧ s < 2 ^ 31 ∧
      offset < 2 ^ 63 ∧ size < 2 ^ 64

/-! ## Reading numbers -/

theorem shift_or_toNat {r : UInt64} {c : Nat} (hc : c < 2 ^ 32) :
    ((r <<< 32) ||| UInt64.ofNat c).toNat = (r.toNat * 2 ^ 32 + c) % 2 ^ 64 := by
  have hlow : r.toNat * 2 ^ 32 % 2 ^ 64 = (r.toNat % 2 ^ 32) <<< 32 := by
    rw [Nat.shiftLeft_eq]
    omega
  have hshift : (r <<< 32).toNat = (r.toNat % 2 ^ 32) <<< 32 := by
    rw [← hlow, UInt64.toNat_shiftLeft, Nat.shiftLeft_eq]
    rfl
  rw [UInt64.toNat_or, hshift, UInt64.toNat_ofNat_of_lt' (lt_trans hc (by decide)), ← Nat.shiftLeft_add_eq_or_of_lt hc,
    Nat.shiftLeft_eq]
  omega

/-- The loop keeps the low 64 bits of the number. -/
theorem readNumberLoop_eq_some : ∀ {size : Nat} {r : UInt64} {cells : Bytes}, 4 * size ≤ cells.length →
    ∃ v, readNumberLoop size r cells = some v ∧
      v.toNat = (r.toNat * 2 ^ (32 * size) + beNat (cells.take (4 * size))) % 2 ^ 64
  | 0, r, cells, _ => ⟨r, rfl, by simp [beNat, leNat, Nat.mod_eq_of_lt r.toNat_lt]⟩
  | size + 1, r, cells, h => by
    have hcell := beNat_lt (cells.take 4)
    rw [List.length_take, Nat.min_eq_left (by omega)] at hcell
    obtain ⟨v, hv, hval⟩ := @readNumberLoop_eq_some size ((r <<< 32) ||| .ofNat (beNat (cells.take 4)))
      (cells.drop 4) (by rw [List.length_drop]; omega)
    refine ⟨v, by rw [readNumberLoop, if_neg (by omega), hv], ?_⟩
    rw [hval, shift_or_toNat hcell]
    have hlen : ((cells.drop 4).take (4 * size)).length = 4 * size := by
      rw [List.length_take, List.length_drop]
      omega
    have hsplit : cells.take (4 * (size + 1)) = cells.take 4 ++ (cells.drop 4).take (4 * size) := by
      rw [← List.take_add, show 4 + 4 * size = 4 * (size + 1) by omega]
    rw [hsplit, beNat_append, hlen, show (256 : Nat) = 2 ^ 8 by rfl, ← pow_mul,
      show 8 * (4 * size) = 32 * size by omega, Nat.add_mod, Nat.mod_mul_mod, ← Nat.add_mod,
      show 32 * (size + 1) = 32 + 32 * size by omega, pow_add]
    congr 1
    ring

theorem readNumberLoop_eq_none : ∀ {size : Nat} {r : UInt64} {cells : Bytes}, cells.length < 4 * size →
    readNumberLoop size r cells = none
  | 0, _, _, h => by simp at h
  | size + 1, r, cells, h => by
    rw [readNumberLoop]
    split
    · rfl
    · exact readNumberLoop_eq_none (by rw [List.length_drop]; omega)

theorem ofReadNumber_eq_some {cells : Bytes} {size : Nat} (h : 4 * size ≤ cells.length) :
    ∃ v, ofReadNumber cells size = some v ∧ v.toNat = beNat (cells.take (4 * size)) % 2 ^ 64 := by
  obtain ⟨v, hv, hval⟩ := @readNumberLoop_eq_some size 0 cells h
  refine ⟨v, ?_, by simpa using hval⟩
  rw [ofReadNumber, if_neg (by omega), Int.toNat_natCast, hv]

theorem ofReadNumber_some {cells : Bytes} {size : Int} {v : UInt64} (h : ofReadNumber cells size = some v) :
    0 ≤ size ∧ 4 * size.toNat ≤ cells.length ∧ v.toNat = beNat (cells.take (4 * size.toNat)) % 2 ^ 64 := by
  rw [ofReadNumber] at h
  split at h
  · cases h
  next hneg =>
  by_cases hfit : 4 * size.toNat ≤ cells.length
  · obtain ⟨v', hv', hval⟩ := @readNumberLoop_eq_some size.toNat 0 cells hfit
    rw [hv', Option.some.injEq] at h
    subst h
    exact ⟨by omega, hfit, by simpa using hval⟩
  · rw [readNumberLoop_eq_none (by omega)] at h
    cases h

/-! ## Counting cells -/

section
variable {propname : CString} {node : DeviceNode} {ancestors : List DeviceNode}

theorem ofNCells_eq : ∀ {node : DeviceNode} {ancestors : List DeviceNode}, ofNCells propname node ancestors =
    match (cellsNodes node ancestors).findSome? fun np => ofFindProperty np propname with
    | some p => firstCell p
    | none => some 1
  | node, [] => by
    rw [ofNCells, cellsNodes, if_pos rfl, List.findSome?_singleton]
  | node, parent :: ancestors => by
    rw [ofNCells, cellsNodes, if_neg (List.cons_ne_nil _ _), List.findSome?_cons]
    cases ofFindProperty parent propname with
    | some p => rfl
    | none =>
      by_cases hroot : ancestors = []
      · subst hroot
        rfl
      · simp only [if_neg hroot]
        rw [ofNCells_eq, cellsNodes, if_neg hroot]

theorem firstCell_some {p : Property} {c : Int} (h : firstCell p = some c) :
    4 ≤ p.value.length ∧ c = cInt (beNat (p.value.take 4)) := by
  rw [firstCell] at h
  split at h
  · cases h
  · exact ⟨by omega, (Option.some.inj h).symm⟩

/-- A count that did not turn negative is what the tree says. -/
theorem ofNCells_some {c : Int} (h : ofNCells propname node ancestors = some c) (h0 : 0 ≤ c) :
    CellCount propname node ancestors c.toNat ∧ c.toNat < 2 ^ 31 := by
  rw [ofNCells_eq] at h
  rw [CellCount]
  split at h
  · next p _ =>
    obtain ⟨hlen, rfl⟩ := firstCell_some h
    have hlt := beNat_lt (p.value.take 4)
    rw [List.length_take, Nat.min_eq_left hlen] at hlt
    have hsmall : (beNat (p.value.take 4) : Int) < 2 ^ 31 := by
      by_contra hbig
      have := cInt_neg (x := beNat (p.value.take 4)) (by omega) (by omega)
      omega
    rw [cInt_of_lt (by omega) hsmall]
    exact ⟨⟨hlen, rfl⟩, by omega⟩
  · cases h
    exact ⟨rfl, by decide⟩

theorem CellCount.ofNCells {n : Nat} (h : CellCount propname node ancestors n) (hn : n < 2 ^ 31) :
    ofNCells propname node ancestors = some (n : Int) := by
  rw [ofNCells_eq]
  rw [CellCount] at h
  split at h
  · obtain ⟨hlen, rfl⟩ := h
    rw [firstCell, if_neg (by omega), cInt_of_lt (by omega) (by omega)]
  · subst h
    rfl

theorem CellCount.unique {m n : Nat} (h : CellCount propname node ancestors m)
    (h' : CellCount propname node ancestors n) : m = n := by
  rw [CellCount] at h h'
  cases hfind : (cellsNodes node ancestors).findSome? fun np => ofFindProperty np propname with
  | some p =>
    rw [hfind] at h h'
    exact h.2.trans h'.2.symm
  | none =>
    rw [hfind] at h h'
    exact h.trans h'.symm

end

/-! ## The partition -/

section
variable {node : DeviceNode} {ancestors : List DeviceNode}

theorem Encodes.unique {reg reg' : Property} {a a' s s' offset offset' size size' : Nat}
    (h : Encodes node ancestors reg a s offset size) (h' : Encodes node ancestors reg' a' s' offset' size') :
    offset = offset' ∧ size = size' := by
  obtain rfl : reg = reg' := Option.some.inj (h.found.symm.trans h'.found)
  obtain rfl := h.aCells.unique h'.aCells
  obtain rfl := h.sCells.unique h'.sCells
  exact ⟨h.offset.trans h'.offset.symm, h.size.trans h'.size.symm⟩

theorem Encodes.parsed {reg : Property} {a s offset size : Nat} (h : Encodes node ancestors reg a s offset size)
    (ha : a < 2 ^ 31) (hs : s < 2 ^ 31) (ho : offset < 2 ^ 63) (hsize : size < 2 ^ 64) :
    ofParsePartition node ancestors = some (.ok ((offset : Int), size)) := by
  have hfits := h.fits
  obtain ⟨v, hv, hval⟩ := @ofReadNumber_eq_some reg.value a (by omega)
  obtain ⟨w, hw, hwal⟩ := @ofReadNumber_eq_some (reg.value.drop (4 * a)) s (by rw [List.length_drop]; omega)
  rw [← slice_zero_left, ← h.offset, Nat.mod_eq_of_lt (by omega)] at hval
  rw [show (reg.value.drop (4 * a)).take (4 * s) = slice (4 * a) (4 * s) reg.value from rfl, ← h.size,
    Nat.mod_eq_of_lt hsize] at hwal
  have ha' : ofNAddrCells node ancestors = some (a : Int) := h.aCells.ofNCells ha
  have hs' : ofNSizeCells node ancestors = some (s : Int) := h.sCells.ofNCells hs
  simp only [ofParsePartition, h.found, ha', hs', hv, Int.toNat_natCast, hw, Option.bind_eq_bind, Option.bind_some,
    Option.pure_def, offT, hval, hwal, if_pos ho]

/-- What the node encodes when all reads stayed inside its properties. -/
theorem parsed_encodes {reg : Property} {offset : Int} {size : Nat} (hreg : ofFindProperty node (cstr "reg") = some reg)
    (h : ofParsePartition node ancestors = some (.ok (offset, size))) :
    ∃ a s n m, Encodes node ancestors reg a s n m ∧ a < 2 ^ 31 ∧ s < 2 ^ 31 ∧ size = m % 2 ^ 64 ∧
      (0 ≤ offset → offset < 2 ^ 63) := by
  simp only [ofParsePartition, hreg, Option.bind_eq_bind, Option.pure_def, Option.bind_eq_some_iff,
    Option.some.injEq, Except.ok.injEq, Prod.mk.injEq] at h
  obtain ⟨a, ha, s, hs, v, hv, w, hw, rfl, rfl⟩ := h
  obtain ⟨ha0, hafit, -⟩ := ofReadNumber_some hv
  obtain ⟨hs0, hsfit, hwal⟩ := ofReadNumber_some hw
  obtain ⟨hacount, halt⟩ := ofNCells_some ha ha0
  obtain ⟨hscount, hslt⟩ := ofNCells_some hs hs0
  rw [List.length_drop] at hsfit
  refine ⟨a.toNat, s.toNat, _, _, ⟨hreg, hacount, hscount, by omega, rfl, rfl⟩, halt, hslt, hwal, fun _ => ?_⟩
  rw [offT]
  split
  · omega
  · have := v.toNat_lt
    omega

end

/-- **When a partition's geometry is read exactly**: if the node has no `reg`, or
the properties are long enough for the cells they announce and the numbers fit
an `off_t` and a `size_t`. -/
theorem partition_sound_iff (node : DeviceNode) (ancestors : List DeviceNode) :
    PartitionSound node ancestors ↔ PartitionFits node ancestors := by
  constructor
  · intro h
    obtain ⟨r, hr, -, hok⟩ := h
    cases hreg : ofFindProperty node (cstr "reg") with
    | none => exact .inl hreg
    | some reg =>
      -- With a `reg` the only return value is 0.
      obtain ⟨offset, size, rfl⟩ : ∃ offset size, r = .ok (offset, size) := by
        simp only [ofParsePartition, hreg, Option.bind_eq_bind, Option.pure_def, Option.bind_eq_some_iff,
          Option.some.injEq] at hr
        obtain ⟨-, -, -, -, v, -, w, -, rfl⟩ := hr
        exact ⟨_, _, rfl⟩
      obtain ⟨reg', a', s', n, rfl, hn⟩ := (hok offset size).1 rfl
      obtain ⟨a, s, n', m, henc, ha, hs, hsize, ho⟩ := parsed_encodes hreg hr
      obtain ⟨rfl, rfl⟩ := hn.unique henc
      have := ho (by omega)
      exact .inr ⟨reg, a, s, n, size, henc, ha, hs, by omega, by omega⟩
  · intro h
    rcases h with hno | ⟨reg, a, s, offset, size, henc, ha, hs, ho, hsize⟩
    · refine ⟨.error (-EINVAL), by simp only [ofParsePartition, hno], fun e he => ?_, fun offset size => ?_⟩
      · cases he
        decide
      · refine iff_of_false (fun h => by cases h) fun h => ?_
        obtain ⟨_, _, _, _, _, henc⟩ := h
        cases hno.symm.trans henc.found
    · refine ⟨_, henc.parsed ha hs ho hsize, (fun e he => by cases he), fun offset' size' => ?_⟩
      simp only [Except.ok.injEq, Prod.mk.injEq]
      constructor
      · intro heq
        obtain ⟨rfl, rfl⟩ := heq
        exact ⟨reg, a, s, offset, rfl, henc⟩
      · intro h
        obtain ⟨reg', a', s', n, rfl, hn⟩ := h
        obtain ⟨rfl, rfl⟩ := hn.unique henc
        exact ⟨rfl, rfl⟩

/-- A partition node below a root that says nothing of cells, with the offset
alone in its `reg`: the size is read behind the property. -/
theorem partition_short_reg : ¬ PartitionSound (.node (cstr "partition") 0 [⟨cstr "reg", [0, 1, 0, 0]⟩] [])
    [.node .empty 0 [] []] := by
  intro h
  obtain ⟨r, hr, -⟩ := h
  have hnone : ofParsePartition (.node (cstr "partition") 0 [⟨cstr "reg", [0, 1, 0, 0]⟩] []) [.node .empty 0 [] []] =
      none := by decide +kernel
  rw [hnone] at hr
  cases hr

end DtUtils
