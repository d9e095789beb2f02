/-
What the flattener writes as long as no buffer grows: both buffers are what
has been written, followed by the zeros that they began with. Names get their
NUL, and everything its padding, from those.
-/
import DtUtils.FdtFlatten
import DtUtils.FdtTokens
import DtUtils.Layout

namespace DtUtils
open Lib

/-! ## The encoding of a tree -/

/-- Bytes up to the next multiple of 4. -/
def padded4 (bs : Bytes) : Bytes := bs ++ List.replicate (pad4 bs.length - bs.length) 0

/-- A string with its NUL. -/
def stringBytes (s : CString) : Bytes := s.1 ++ [0]

def beginNodeBytes (name : CString) : Bytes := padded4 (beBytes 4 fdtBeginNode ++ stringBytes name)

def propertyBytes (p : Property) (nameoff : Nat) : Bytes :=
  padded4 (beBytes 4 fdtProp ++ beBytes 4 p.value.length ++ beBytes 4 nameoff ++ p.value)

/-- Properties whose names begin at `off` in the strings block. -/
def propertiesBytes : List Property → Nat → Bytes
  | [], _ => []
  | p :: properties, off => propertyBytes p off ++ propertiesBytes properties (off + (stringBytes p.name).length)

def propertiesStrings (properties : List Property) : Bytes := properties.flatMap fun p => stringBytes p.name

mutual
/-- The names of a tree's properties, in the order of the structure block. -/
def nodeStrings : DeviceNode → Bytes
  | .node _ _ properties children => propertiesStrings properties ++ nodesStrings children

def nodesStrings : List DeviceNode → Bytes
  | [] => []
  | node :: nodes => nodeStrings node ++ nodesStrings nodes
end

mutual
/-- A node whose property names begin at `off` in the strings block. -/
def nodeBytes : DeviceNode → Nat → Bytes
  | .node name _ properties children, off =>
    beginNodeBytes name ++ propertiesBytes properties off ++
      nodesBytes children (off + (propertiesStrings properties).length) ++ beBytes 4 fdtEndNode

def nodesBytes : List DeviceNode → Nat → Bytes
  | [], _ => []
  | node :: nodes, off => nodeBytes node off ++ nodesBytes nodes (off + (nodeStrings node).length)
end

@[simp] theorem stringBytes_length (s : CString) : (stringBytes s).length = s.1.length + 1 := by simp [stringBytes]

@[simp] theorem padded4_length (bs : Bytes) : (padded4 bs).length = pad4 bs.length := by
  have := le_pad4 bs.length
  simp only [padded4, List.length_append, List.length_replicate]
  omega

theorem dvd_pad4 (x : Nat) : 4 ∣ pad4 x := Nat.dvd_mul_left _ _

theorem pad4_add {a b : Nat} (h : 4 ∣ a) : pad4 (a + b) = a + pad4 b := by
  unfold pad4
  omega

theorem align4_eq {x : Nat} (h : x + 3 < 2 ^ 32) : align4 (x % 2 ^ 32) = pad4 x := by
  rw [align4, Nat.mod_eq_of_lt (show x < 2 ^ 32 by omega), Nat.mod_eq_of_lt h, pad4]

/-! ## Reallocations -/

@[simp] theorem realloc_length (junk : Nat → UInt8) (size : Nat) (buf : Bytes) :
    (realloc junk size buf).length = size := by
  simp only [realloc, List.length_append, List.length_take, List.length_map, List.length_range]
  omega

theorem realloc_take {junk : Nat → UInt8} {size n : Nat} {buf : Bytes} (h : n ≤ size) (hbuf : n ≤ buf.length) :
    (realloc junk size buf).take n = buf.take n := by
  rw [realloc, List.take_append_of_le_length (by rw [List.length_take]; omega), List.take_take, Nat.min_eq_left h]

/-- The reallocations so far. -/
def Fdt.reallocs (fdt : Fdt) : Nat := fdt.dtReallocs + fdt.strReallocs

theorem fdtGrowStrings_cases (junk : Junk) (fdt : Fdt) :
    (fdtGrowStrings junk fdt).reallocs = fdt.reallocs + 1 ∨
      fdtGrowStrings junk fdt = fdt ∧ 1024 ≤ sub32 fdt.strings.length fdt.strNextofs := by
  unfold fdtGrowStrings
  split
  · exact .inl (Nat.add_assoc _ _ _).symm
  · exact .inr ⟨rfl, by omega⟩

theorem fdtGrowDt_cases (junk : Junk) (fdt : Fdt) (dtsize : Nat) :
    (fdtGrowDt junk fdt dtsize).reallocs = fdt.reallocs + 1 ∨
      fdtGrowDt junk fdt dtsize = fdt ∧ 1024 + dtsize ≤ sub32 fdt.dt.length fdt.dtNextofs := by
  unfold fdtGrowDt
  split
  · exact .inl (Nat.add_right_comm _ _ _)
  · exact .inr ⟨rfl, by omega⟩

/-- `fdt_ensure_space` has found space, or something is reallocated or empty. -/
theorem fdtEnsureSpace_cases (junk : Junk) (fdt : Fdt) (dtsize : Nat) :
    fdt.reallocs < (fdtEnsureSpace junk fdt dtsize).1.reallocs ∨
      (fdtEnsureSpace junk fdt dtsize).1 = fdt ∧ (fdt.strings = [] ∨ fdt.dt = [] ∨
        fdtEnsureSpace junk fdt dtsize = (fdt, 0) ∧ 1024 ≤ sub32 fdt.strings.length fdt.strNextofs ∧
          1024 + dtsize ≤ sub32 fdt.dt.length fdt.dtNextofs) := by
  have hdt := fdtGrowDt_cases junk (fdtGrowStrings junk fdt) dtsize
  unfold fdtEnsureSpace
  simp only
  obtain hgrown | ⟨heq, hspace⟩ := fdtGrowStrings_cases junk fdt
  · left
    split
    · simp only
      omega
    · obtain hgrown' | ⟨heq', _⟩ := hdt
      · split <;> simp only <;> omega
      · rw [heq']
        split <;> simp only <;> omega
  · rw [heq] at hdt ⊢
    by_cases hs : fdt.strings = []
    · rw [if_pos hs]
      exact .inr ⟨rfl, .inl hs⟩
    rw [if_neg hs]
    obtain hgrown' | ⟨heq', hspace'⟩ := hdt
    · left
      split <;> simp only <;> omega
    · rw [heq']
      by_cases hd : fdt.dt = []
      · rw [if_pos hd]
        exact .inr ⟨rfl, .inr (.inl hd)⟩
      · rw [if_neg hd]
        exact .inr ⟨rfl, .inr (.inr ⟨rfl, hspace, hspace'⟩)⟩

theorem fdtEnsureSpace_reallocs (junk : Junk) (fdt : Fdt) (dtsize : Nat) :
    fdt.reallocs ≤ (fdtEnsureSpace junk fdt dtsize).1.reallocs := by
  obtain h | ⟨h, _⟩ := fdtEnsureSpace_cases junk fdt dtsize
  · exact h.le
  · exact (congrArg Fdt.reallocs h).ge

theorem Fdt.write_reallocs {fdt fdt' : Fdt} {off : Nat} {bs : Bytes} (h : fdt.write off bs = some fdt') :
    fdt'.reallocs = fdt.reallocs := by
  unfold Fdt.write at h
  split at h
  · cases h
    rfl
  · cases h

/-- `dt_add_string` reallocates where it ensures space, and nowhere else. -/
theorem dtAddString_reallocs (junk : Junk) (fdt : Fdt) (str : CString) :
    (dtAddString junk fdt str).1.reallocs = (fdtEnsureSpace junk fdt 0).1.reallocs := by
  unfold dtAddString
  simp only
  split
  · rfl
  cases lstrcpy (fdtEnsureSpace junk fdt 0).1.strings (fdtEnsureSpace junk fdt 0).1.strNextofs str with
  | none => rfl
  | some r =>
    simp only
    split <;> rfl

theorem flattenBeginNode_reallocs (junk : Junk) (name : CString) (fdt : Fdt) :
    (flattenBeginNode junk name fdt).1.reallocs = (fdtEnsureSpace junk fdt 0).1.reallocs := by
  unfold flattenBeginNode
  simp only
  split
  · rfl
  cases hwrite : (fdtEnsureSpace junk fdt 0).1.write (fdtEnsureSpace junk fdt 0).1.dtNextofs (fdt32 fdtBeginNode) with
  | none => rfl
  | some fdt' =>
    have h := Fdt.write_reallocs hwrite
    simp only
    cases lstrcpy fdt'.dt (fdt'.dtNextofs + 4) name with
    | none => exact h
    | some r => exact h

/-- Past its first write, a property reallocates where its name is added. -/
theorem flattenProperty_reallocs_of_write {junk : Junk} {p : Property} {fdt fdt₁ : Fdt}
    (hret : ¬ (fdtEnsureSpace junk fdt p.value.length).2 < 0)
    (hwrite : (fdtEnsureSpace junk fdt p.value.length).1.write (fdtEnsureSpace junk fdt p.value.length).1.dtNextofs
      (fdt32 fdtProp ++ fdt32 p.value.length) = some fdt₁) :
    (flattenProperty junk p fdt).1.reallocs = (dtAddString junk fdt₁ p.name).1.reallocs := by
  unfold flattenProperty
  simp only
  rw [if_neg hret, hwrite]
  simp only
  rcases dtAddString junk fdt₁ p.name with ⟨fdt₂, _ | nameoff⟩
  · rfl
  simp only
  split
  · rfl
  cases hdata : fdt₂.write (fdt₂.dtNextofs + 8) (fdt32 nameoff ++ p.value) with
  | none => rfl
  | some fdt₃ =>
    have h := Fdt.write_reallocs hdata
    exact h

theorem flattenProperty_reallocs (junk : Junk) (p : Property) (fdt : Fdt) :
    (fdtEnsureSpace junk fdt p.value.length).1.reallocs ≤ (flattenProperty junk p fdt).1.reallocs := by
  by_cases hret : (fdtEnsureSpace junk fdt p.value.length).2 < 0
  · unfold flattenProperty
    simp only
    rw [if_pos hret]
  cases hwrite : (fdtEnsureSpace junk fdt p.value.length).1.write (fdtEnsureSpace junk fdt p.value.length).1.dtNextofs
      (fdt32 fdtProp ++ fdt32 p.value.length) with
  | none =>
    unfold flattenProperty
    simp only
    rw [if_neg hret, hwrite]
  | some fdt₁ =>
    rw [flattenProperty_reallocs_of_write hret hwrite, dtAddString_reallocs, ← Fdt.write_reallocs hwrite]
    exact fdtEnsureSpace_reallocs junk fdt₁ 0

theorem flattenEndNode_reallocs (junk : Junk) (fdt : Fdt) : fdt.reallocs ≤ (flattenEndNode junk fdt).1.reallocs := by
  unfold flattenEndNode
  cases hwrite : fdt.write fdt.dtNextofs (fdt32 fdtEndNode) with
  | none => exact le_rfl
  | some fdt' =>
    have h := fdtEnsureSpace_reallocs junk { fdt' with dtNextofs := dtNextOfs fdt'.dtNextofs 4 } 0
    rw [← Fdt.write_reallocs hwrite]
    simp only
    split <;> exact h

theorem andThen_reallocs {r : Fdt × Option Int} {k : Fdt → Fdt × Option Int}
    (hk : ∀ fdt, fdt.reallocs ≤ (k fdt).1.reallocs) : r.1.reallocs ≤ (andThen r k).1.reallocs := by
  unfold andThen
  split
  · exact hk _
  · exact le_rfl

theorem flattenProperties_reallocs (junk : Junk) : ∀ (properties : List Property) (fdt : Fdt),
    fdt.reallocs ≤ (flattenProperties junk properties fdt).1.reallocs
  | [], _ => le_rfl
  | p :: properties, fdt =>
    ((fdtEnsureSpace_reallocs junk fdt p.value.length).trans (flattenProperty_reallocs junk p fdt)).trans
      (andThen_reallocs (flattenProperties_reallocs junk properties))

mutual
theorem flattenNode_reallocs (junk : Junk) : ∀ (node : DeviceNode) (fdt : Fdt),
    fdt.reallocs ≤ (flattenNode junk node fdt).1.reallocs
  | .node name _ properties children, fdt => by
    unfold flattenNode
    refine ((fdtEnsureSpace_reallocs junk fdt 0).trans_eq (flattenBeginNode_reallocs junk name fdt).symm).trans
      (andThen_reallocs fun fdt => ?_)
    refine (flattenProperties_reallocs junk properties fdt).trans (andThen_reallocs fun fdt => ?_)
    exact (flattenNodes_reallocs junk children fdt).trans (andThen_reallocs (flattenEndNode_reallocs junk))

theorem flattenNodes_reallocs (junk : Junk) : ∀ (nodes : List DeviceNode) (fdt : Fdt),
    fdt.reallocs ≤ (flattenNodes junk nodes fdt).1.reallocs
  | [], _ => le_rfl
  | node :: nodes, fdt =>
    (flattenNode_reallocs junk node fdt).trans (andThen_reallocs (flattenNodes_reallocs junk nodes))
end

/-! ## The buffers -/

/-- A buffer that holds `D`, and nothing else so far. -/
def zeroed (D : Bytes) : Bytes := D ++ List.replicate (fdtBufsize - D.length) 0

theorem zeroed_length {D : Bytes} (h : D.length ≤ fdtBufsize) : (zeroed D).length = fdtBufsize := by
  rw [zeroed, List.length_append, List.length_replicate]
  omega

theorem splice_zeroed {D x : Bytes} {off : Nat} (hoff : off = D.length) (h : D.length + x.length ≤ fdtBufsize) :
    splice off x (zeroed D) = zeroed (D ++ x) := by
  have hsplit : List.replicate (fdtBufsize - D.length) (0 : UInt8) =
      List.replicate x.length 0 ++ List.replicate (fdtBufsize - (D ++ x).length) 0 := by
    rw [List.replicate_append_replicate, List.length_append]
    congr 1
    omega
  rw [zeroed, hsplit, ← List.append_assoc, splice_append hoff.symm (by simp), zeroed]

theorem zeroed_append_zeros {D : Bytes} {k : Nat} (h : D.length + k ≤ fdtBufsize) :
    zeroed (D ++ List.replicate k 0) = zeroed D := by
  simp only [zeroed, List.append_assoc, List.length_append, List.length_replicate, List.replicate_append_replicate]
  congr 2
  omega

/-- `D` has been written to the structure block and `S` to the strings, without
a reallocation; there is room for the end of a node. -/
structure Written (fdt : Fdt) (D S : Bytes) : Prop where
  dt : fdt.dt = zeroed D
  dt_le : D.length + 4 ≤ fdtBufsize
  aligned : 4 ∣ D.length
  dtNextofs : fdt.dtNextofs = D.length
  strings : fdt.strings = zeroed S
  strings_le : S.length ≤ fdtBufsize
  strNextofs : fdt.strNextofs = S.length
  reallocs : fdt.reallocs = 0

theorem Written.dt_length {fdt : Fdt} {D S : Bytes} (h : Written fdt D S) : fdt.dt.length = fdtBufsize := by
  have := h.dt_le
  rw [h.dt, zeroed_length (by omega)]

theorem Written.strings_length {fdt : Fdt} {D S : Bytes} (h : Written fdt D S) : fdt.strings.length = fdtBufsize := by
  rw [h.strings, zeroed_length h.strings_le]

theorem fdtEnsureSpace_eq {fdt : Fdt} {junk : Junk} {dtsize : Nat} (hdt : fdt.dt.length = fdtBufsize)
    (hdtle : fdt.dtNextofs ≤ fdtBufsize) (hstr : fdt.strings.length = fdtBufsize) (hstrle : fdt.strNextofs ≤ fdtBufsize)
    (h : fdt.reallocs = 0) (hgrow : (fdtEnsureSpace junk fdt dtsize).1.reallocs = 0) :
    fdtEnsureSpace junk fdt dtsize = (fdt, 0) ∧ fdt.dtNextofs + 1024 + dtsize ≤ fdtBufsize ∧
      fdt.strNextofs + 1024 ≤ fdtBufsize := by
  have hne : ∀ bs : Bytes, bs.length = fdtBufsize → bs ≠ [] := by
    intro bs hbs hnil
    rw [hnil] at hbs
    cases hbs
  obtain hmore | ⟨_, hs | hd | ⟨heq, hspace, hspace'⟩⟩ := fdtEnsureSpace_cases junk fdt dtsize
  · omega
  · exact absurd hs (hne _ hstr)
  · exact absurd hd (hne _ hdt)
  · rw [hstr, sub32_of_le hstrle (by decide)] at hspace
    rw [hdt, sub32_of_le hdtle (by decide)] at hspace'
    exact ⟨heq, by omega, by omega⟩

theorem Written.ensureSpace {fdt : Fdt} {D S : Bytes} {junk : Junk} {dtsize : Nat} (h : Written fdt D S)
    (hgrow : (fdtEnsureSpace junk fdt dtsize).1.reallocs = 0) :
    fdtEnsureSpace junk fdt dtsize = (fdt, 0) ∧ D.length + 1024 + dtsize ≤ fdtBufsize ∧
      S.length + 1024 ≤ fdtBufsize := by
  have := h.dt_le
  rw [← h.dtNextofs, ← h.strNextofs]
  exact fdtEnsureSpace_eq h.dt_length (by rw [h.dtNextofs]; omega) h.strings_length (h.strNextofs ▸ h.strings_le)
    h.reallocs hgrow

theorem splice_set {c : UInt8} {src dest : Bytes} {off : Nat} (h : off < dest.length) :
    splice (off + 1) src (dest.set off c) = splice off (c :: src) dest := by
  apply List.ext_getElem?
  intro i
  rw [getElem?_splice (by rw [List.length_set]; omega), getElem?_splice (by omega), List.getElem?_set]
  simp only [List.length_cons]
  rcases lt_trichotomy i off with hi | rfl | hi
  · rw [if_pos (by omega), if_pos hi, if_neg (by omega)]
  · simp [h]
  · rw [if_neg (by omega : ¬ i < off), if_neg (by omega : ¬ off = i)]
    by_cases hin : i < off + 1 + src.length
    · obtain ⟨k, rfl⟩ : ∃ k, i = off + 1 + k := ⟨i - (off + 1), by omega⟩
      rw [if_neg (by omega), if_pos hin, if_pos (by omega), show off + 1 + k - off = k + 1 by omega,
        show off + 1 + k - (off + 1) = k by omega, List.getElem?_cons_succ]
    · rw [if_neg (by omega), if_neg hin, if_neg (by omega)]

/-- The loop copies at most `maxlen + 1` bytes, and fails if it has copied as
many. -/
theorem lstrcpyLoop_eq : ∀ {src dest : Bytes} {off maxlen : Nat} {len : Int}, off ≤ dest.length →
    lstrcpyLoop dest off src len maxlen =
      if off + min src.length (maxlen + 1) ≤ dest.length then
        some (splice off (src.take (maxlen + 1)) dest, if src.length ≤ maxlen then len + src.length else -ENOSPC)
      else none
  | [], dest, off, maxlen, len, h => by simp [lstrcpyLoop, h]
  | c :: src, dest, off, 0, len, h => by
    have hone : (c :: src).take 1 = [c] := rfl
    rw [lstrcpyLoop, List.length_cons]
    by_cases hlt : off < dest.length
    · rw [if_pos hlt, if_pos (by omega), hone, if_neg (by omega), ← splice_set hlt, splice_nil]
    · rw [if_neg hlt, if_neg (by omega)]
  | c :: src, dest, off, maxlen + 1, len, h => by
    rw [lstrcpyLoop, List.length_cons]
    by_cases hlt : off < dest.length
    · have hmin : off + 1 + min src.length (maxlen + 1) = off + min (src.length + 1) (maxlen + 1 + 1) := by omega
      rw [if_pos hlt, lstrcpyLoop_eq (by rw [List.length_set]; omega), List.length_set, List.take_succ_cons,
        splice_set hlt, hmin]
      congr 3
      by_cases hle : src.length ≤ maxlen
      · rw [if_pos hle, if_pos (by omega)]
        push_cast
        omega
      · rw [if_neg hle, if_neg (by omega)]
    · rw [if_neg hlt, if_neg (by omega)]

/-- `lstrcpy` of a name of any length, to a place in the buffer. -/
theorem lstrcpy_cases {dest : Bytes} {off : Nat} {src : CString} (h : off ≤ dest.length) :
    lstrcpy dest off src =
      if off + min src.1.length 1024 ≤ dest.length then
        some (splice off (src.1.take 1024) dest, if src.1.length ≤ 1023 then (src.1.length : Int) else -ENOSPC)
      else none := by
  unfold lstrcpy
  rw [lstrcpyLoop_eq h, Int.zero_add]

theorem lstrcpy_eq {dest : Bytes} {off : Nat} {src : CString} (hsrc : src.1.length ≤ 1023)
    (hdest : off + src.1.length ≤ dest.length) :
    lstrcpy dest off src = some (splice off src.1 dest, (src.1.length : Int)) := by
  rw [lstrcpy_cases (by omega), if_pos (by omega), if_pos hsrc, List.take_of_length_le (by omega)]

/-! ## Writing a tree -/

theorem fdt32_natCast {n : Nat} (h : n < 2 ^ 32) : fdt32 n = beBytes 4 n := by
  unfold fdt32
  congr 1
  omega

@[simp] theorem fdt32_length (x : Int) : (fdt32 x).length = 4 := beBytes_length 4 _

theorem write_zeroed {fdt : Fdt} {D x : Bytes} {off : Nat} (hdt : fdt.dt = zeroed D) (hoff : off = D.length)
    (h : D.length + x.length ≤ fdtBufsize) : fdt.write off x = some { fdt with dt := zeroed (D ++ x) } := by
  rw [Fdt.write, hdt, zeroed_length (by omega), if_pos (by omega), splice_zeroed hoff h]

theorem dtNextOfs_eq {D : Bytes} {n : Nat} (haligned : 4 ∣ D.length) (h : D.length + n ≤ fdtBufsize) :
    dtNextOfs D.length n = D.length + pad4 n := by
  have : fdtBufsize = 65536 := rfl
  rw [dtNextOfs, align4_eq (by omega), pad4_add haligned]

theorem zeroed_padded {D x : Bytes} (h : D.length + pad4 x.length ≤ fdtBufsize) :
    zeroed (D ++ padded4 x) = zeroed (D ++ x) := by
  have := le_pad4 x.length
  rw [padded4, ← List.append_assoc]
  exact zeroed_append_zeros (by rw [List.length_append]; omega)

/-- A name that `lstrcpy` copies, with some room to spare. -/
def ShortName (name : CString) : Prop := name.1.length ≤ 1000

/-- A name that has room in the 1024 bytes that are kept, with the tags of a
node and its NUL. -/
def RoomyName (name : CString) : Prop := name.1.length ≤ 1015

/-- A name that `lstrcpy` copies as a whole. -/
def CopiedName (name : CString) : Prop := name.1.length ≤ 1023

theorem ShortName.roomy {name : CString} (h : ShortName name) : RoomyName name := Nat.le_trans h (by decide)

theorem RoomyName.copied {name : CString} (h : RoomyName name) : CopiedName name := Nat.le_trans h (by decide)

theorem beginNodeBytes_length (name : CString) : (beginNodeBytes name).length = pad4 (4 + (name.1.length + 1)) := by
  rw [beginNodeBytes, padded4_length, List.length_append, beBytes_length, stringBytes_length]

theorem RoomyName.fits {D : Bytes} {name : CString} (h : RoomyName name) (hroom : D.length + 1024 ≤ fdtBufsize) :
    (D ++ beginNodeBytes name).length + 4 ≤ fdtBufsize := by
  have hname : name.1.length ≤ 1015 := h
  have hpad : pad4 (4 + (name.1.length + 1)) ≤ 1020 := by
    unfold pad4
    omega
  rw [List.length_append, beginNodeBytes_length]
  omega

theorem Written.beginNode {fdt : Fdt} {D S : Bytes} {junk : Junk} {name : CString} (h : Written fdt D S)
    (hname : CopiedName name) (hfits : (D ++ beginNodeBytes name).length + 4 ≤ fdtBufsize)
    (hgrow : (flattenBeginNode junk name fdt).1.reallocs = 0) :
    ∃ fdt', flattenBeginNode junk name fdt = (fdt', some 0) ∧ Written fdt' (D ++ beginNodeBytes name) S := by
  rw [flattenBeginNode_reallocs] at hgrow
  obtain ⟨hspace, hroom, _⟩ := h.ensureSpace hgrow
  have hname : name.1.length ≤ 1023 := hname
  have hpad := le_pad4 (4 + (name.1.length + 1))
  rw [List.length_append, beginNodeBytes_length] at hfits
  have hlen : (beBytes 4 fdtBeginNode ++ stringBytes name).length = 4 + (name.1.length + 1) := by simp
  have hwrite : fdt.write fdt.dtNextofs (fdt32 fdtBeginNode) =
      some { fdt with dt := zeroed (D ++ beBytes 4 fdtBeginNode) } := by
    rw [fdt32_natCast (by decide)]
    exact write_zeroed h.dt h.dtNextofs (by rw [beBytes_length]; omega)
  have hcopy : lstrcpy (zeroed (D ++ beBytes 4 fdtBeginNode)) (fdt.dtNextofs + 4) name =
      some (zeroed (D ++ beginNodeBytes name), (name.1.length : Int)) := by
    have htag : (D ++ beBytes 4 fdtBeginNode).length = D.length + 4 := by simp
    rw [lstrcpy_eq (by omega) (by rw [zeroed_length (by omega), h.dtNextofs]; omega),
      splice_zeroed (by rw [h.dtNextofs, htag]) (by omega), beginNodeBytes, zeroed_padded (by rw [hlen]; omega),
      stringBytes]
    rw [← zeroed_append_zeros (k := 1) (by simp only [List.length_append, beBytes_length]; omega)]
    simp only [List.append_assoc, List.replicate_one]
  have hnext : dtNextOfs fdt.dtNextofs (4 + ((name.1.length : Int) % 2 ^ 32).toNat + 1) =
      (D ++ beginNodeBytes name).length := by
    have hn : ((name.1.length : Int) % 2 ^ 32).toNat = name.1.length := by omega
    rw [hn, Nat.add_assoc, h.dtNextofs, dtNextOfs_eq h.aligned (by omega), List.length_append, beginNodeBytes,
        padded4_length, hlen]
  refine ⟨{ fdt with
    dt := zeroed (D ++ beginNodeBytes name)
    dtNextofs := dtNextOfs fdt.dtNextofs (4 + ((name.1.length : Int) % 2 ^ 32).toNat + 1) }, ?_, ?_⟩
  · unfold flattenBeginNode
    rw [hspace]
    simp only
    rw [if_neg (by decide), hwrite]
    simp only
    rw [hcopy]
  · exact { h with
      dt := rfl
      dt_le := by
        rw [List.length_append, beginNodeBytes, padded4_length, hlen]
        omega
      aligned := by
        rw [List.length_append, beginNodeBytes, padded4_length]
        exact Nat.dvd_add h.aligned (dvd_pad4 _)
      dtNextofs := hnext }

/-- The structure block goes on where not even a tag fits. -/
structure Fdt.Overrun (fdt : Fdt) : Prop where
  dt_lt : fdt.dt.length < fdt.dtNextofs + 4
  dt_ne : fdt.dt ≠ []
  strings_ne : fdt.strings ≠ []
  reallocs : fdt.reallocs = 0

/-- A long name may take the rest of the structure block. -/
theorem Written.beginNode_overrun {fdt : Fdt} {D S : Bytes} {junk : Junk} {name : CString} (h : Written fdt D S)
    (hname : CopiedName name) (hover : fdtBufsize < (D ++ beginNodeBytes name).length + 4)
    (hgrow : (flattenBeginNode junk name fdt).1.reallocs = 0) :
    (flattenBeginNode junk name fdt).2 = none ∨ ∃ fdt', flattenBeginNode junk name fdt = (fdt', some 0) ∧
      fdt'.Overrun := by
  rw [flattenBeginNode_reallocs] at hgrow
  obtain ⟨hspace, hroom, _⟩ := h.ensureSpace hgrow
  have hname : name.1.length ≤ 1023 := hname
  have hbuf : fdtBufsize = 65536 := rfl
  rw [List.length_append, beginNodeBytes_length] at hover
  have hwrite : fdt.write fdt.dtNextofs (fdt32 fdtBeginNode) =
      some { fdt with dt := zeroed (D ++ beBytes 4 fdtBeginNode) } := by
    rw [fdt32_natCast (by decide)]
    exact write_zeroed h.dt h.dtNextofs (by rw [beBytes_length]; omega)
  have hlen : (zeroed (D ++ beBytes 4 fdtBeginNode)).length = fdtBufsize := by
    refine zeroed_length ?_
    rw [List.length_append, beBytes_length]
    omega
  unfold flattenBeginNode
  rw [hspace]
  simp only
  rw [if_neg (by decide), hwrite]
  simp only
  rw [lstrcpy_cases (by rw [hlen, h.dtNextofs]; omega), if_pos (show name.1.length ≤ 1023 from hname)]
  split
  · exact .inl rfl
  next dt len hcopy =>
  refine .inr ⟨_, rfl, ?_⟩
  split at hcopy
  next hin =>
    obtain ⟨rfl, rfl⟩ := Prod.mk.inj (Option.some.inj hcopy)
    have hsplice : (splice (fdt.dtNextofs + 4) (name.1.take 1024) (zeroed (D ++ beBytes 4 fdtBeginNode))).length =
        fdtBufsize := by
      rw [splice_length (by rw [List.length_take, min_comm]; exact hin), hlen]
    have hnext : dtNextOfs fdt.dtNextofs (4 + ((name.1.length : Int) % 2 ^ 32).toNat + 1) =
        D.length + pad4 (4 + (name.1.length + 1)) := by
      have hn : ((name.1.length : Int) % 2 ^ 32).toNat = name.1.length := by omega
      have hpad := pad4_lt (4 + (name.1.length + 1))
      rw [hn, Nat.add_assoc, h.dtNextofs, dtNextOfs, align4_eq (by omega), pad4_add h.aligned]
    exact {
      dt_lt := by
        simp only [hsplice, hnext]
        exact hover
      dt_ne := by
        intro hnil
        rw [show splice _ _ _ = [] from hnil] at hsplice
        cases hsplice
      strings_ne := by
        intro hnil
        have hstrings := h.strings_length
        rw [show fdt.strings = [] from hnil] at hstrings
        cases hstrings
      reallocs := h.reallocs }
  · cases hcopy

section
variable {fdt : Fdt} {junk : Junk}

theorem Fdt.Overrun.ensureSpace (h : fdt.Overrun) {dtsize : Nat}
    (hgrow : (fdtEnsureSpace junk fdt dtsize).1.reallocs = 0) : fdtEnsureSpace junk fdt dtsize = (fdt, 0) := by
  obtain hmore | ⟨_, hs | hd | ⟨heq, _⟩⟩ := fdtEnsureSpace_cases junk fdt dtsize
  · omega
  · exact absurd hs h.strings_ne
  · exact absurd hd h.dt_ne
  · exact heq

theorem Fdt.Overrun.write (h : fdt.Overrun) {bs : Bytes} (hbs : 4 ≤ bs.length) : fdt.write fdt.dtNextofs bs = none := by
  have := h.dt_lt
  rw [Fdt.write, if_neg (by omega)]

theorem Fdt.Overrun.beginNode (h : fdt.Overrun) {name : CString}
    (hgrow : (flattenBeginNode junk name fdt).1.reallocs = 0) : (flattenBeginNode junk name fdt).2 = none := by
  rw [flattenBeginNode_reallocs] at hgrow
  unfold flattenBeginNode
  rw [h.ensureSpace hgrow]
  simp only
  rw [if_neg (by decide), h.write (fdt32_length _).ge]

theorem Fdt.Overrun.property (h : fdt.Overrun) {p : Property} (hgrow : (flattenProperty junk p fdt).1.reallocs = 0) :
    (flattenProperty junk p fdt).2 = none := by
  have hspace := h.ensureSpace (Nat.le_zero.1 ((flattenProperty_reallocs junk p fdt).trans_eq hgrow))
  have hwrite : fdt.write fdt.dtNextofs (fdt32 fdtProp ++ fdt32 p.value.length) = none := h.write (by
    rw [List.length_append, fdt32_length]
    omega)
  unfold flattenProperty
  rw [hspace]
  simp only
  rw [if_neg (by decide), hwrite]

theorem Fdt.Overrun.endNode (h : fdt.Overrun) : (flattenEndNode junk fdt).2 = none := by
  unfold flattenEndNode
  rw [h.write (fdt32_length _).ge]

theorem andThen_none {r : Fdt × Option Int} {k : Fdt → Fdt × Option Int} (h : r.2 = none) : (andThen r k).2 = none := by
  obtain ⟨fdt, o⟩ := r
  obtain rfl : o = none := h
  rfl

end

/-- The name goes to the end of the strings. -/
theorem dtAddString_eq {fdt : Fdt} {junk : Junk} {S : Bytes} {str : CString} (hdt : fdt.dt.length = fdtBufsize)
    (hdtle : fdt.dtNextofs ≤ fdtBufsize) (hstr : fdt.strings = zeroed S) (hlen : fdt.strNextofs = S.length)
    (hle : S.length ≤ fdtBufsize) (h : fdt.reallocs = 0) (hshort : RoomyName str)
    (hgrow : (dtAddString junk fdt str).1.reallocs = 0) :
    dtAddString junk fdt str =
        ({ fdt with strings := zeroed (S ++ stringBytes str), strNextofs := (S ++ stringBytes str).length },
          some (S.length : Int)) ∧
      (S ++ stringBytes str).length ≤ fdtBufsize := by
  rw [dtAddString_reallocs] at hgrow
  have hbuf : fdtBufsize = 65536 := rfl
  have hshort : str.1.length ≤ 1015 := hshort
  obtain ⟨hspace, _, hroom⟩ :=
    fdtEnsureSpace_eq hdt hdtle (by rw [hstr, zeroed_length hle]) (hlen ▸ hle) h hgrow
  rw [hlen] at hroom
  have hcopy : lstrcpy fdt.strings fdt.strNextofs str = some (zeroed (S ++ stringBytes str), (str.1.length : Int)) := by
    rw [lstrcpy_eq (by omega) (by rw [hstr, zeroed_length hle, hlen]; omega), hstr, splice_zeroed hlen (by omega),
      stringBytes, ← zeroed_append_zeros (k := 1) (by rw [List.length_append]; omega)]
    simp only [List.append_assoc, List.replicate_one]
  have hnext : (fdt.strNextofs + (str.1.length : Int).toNat + 1) % 2 ^ 32 = (S ++ stringBytes str).length := by
    rw [List.length_append, stringBytes_length, hlen]
    omega
  refine ⟨?_, by rw [List.length_append, stringBytes_length]; omega⟩
  unfold dtAddString
  rw [hspace]
  simp only
  rw [if_neg (by decide), hcopy]
  simp only
  rw [if_neg (by omega), hnext, hlen, cInt_of_lt (by omega) (by omega)]

theorem Written.property {fdt : Fdt} {D S : Bytes} {junk : Junk} {p : Property} (h : Written fdt D S)
    (hname : RoomyName p.name) (hgrow : (flattenProperty junk p fdt).1.reallocs = 0) :
    ∃ fdt', flattenProperty junk p fdt = (fdt', some 0) ∧
      Written fdt' (D ++ propertyBytes p S.length) (S ++ stringBytes p.name) := by
  have hbuf : fdtBufsize = 65536 := rfl
  obtain ⟨hspace, hroom, _⟩ := h.ensureSpace (Nat.le_zero.1 ((flattenProperty_reallocs junk p fdt).trans_eq hgrow))
  have hstrle := h.strings_le
  -- The tag and the length.
  obtain ⟨H, hH⟩ : ∃ H, H = beBytes 4 fdtProp ++ beBytes 4 p.value.length := ⟨_, rfl⟩
  have hHlen : (D ++ H).length = D.length + 8 := by
    simp only [hH, List.length_append, beBytes_length]
  have hhead : fdt32 fdtProp ++ fdt32 p.value.length = H := by
    rw [hH, fdt32_natCast (by decide), fdt32_natCast (by omega)]
  obtain ⟨fdt₁, hfdt₁⟩ : ∃ fdt₁, fdt₁ = { fdt with dt := zeroed (D ++ H) } := ⟨_, rfl⟩
  have hwrite : fdt.write fdt.dtNextofs (fdt32 fdtProp ++ fdt32 p.value.length) = some fdt₁ := by
    rw [hhead, hfdt₁]
    exact write_zeroed h.dt h.dtNextofs (by rw [← List.length_append]; omega)
  -- The name.
  have hadd : (dtAddString junk fdt₁ p.name).1.reallocs = 0 := by
    rw [← hgrow]
    exact (flattenProperty_reallocs_of_write (by simp [hspace]) (by rw [hspace]; exact hwrite)).symm
  have hdt₁ : fdt₁.dt.length = fdtBufsize := by
    rw [hfdt₁]
    exact zeroed_length (by omega)
  have hnext₁ : fdt₁.dtNextofs = D.length := by
    rw [hfdt₁]
    exact h.dtNextofs
  have hstr₁ : fdt₁.strings = zeroed S ∧ fdt₁.strNextofs = S.length ∧ fdt₁.reallocs = 0 := by
    rw [hfdt₁]
    exact ⟨h.strings, h.strNextofs, h.reallocs⟩
  obtain ⟨hstring, hstrings⟩ :=
    dtAddString_eq hdt₁ (by omega) hstr₁.1 hstr₁.2.1 hstrle hstr₁.2.2 hname hadd
  -- The name's offset and the data.
  obtain ⟨fdt₂, hfdt₂⟩ : ∃ fdt₂, fdt₂ = { fdt₁ with
      strings := zeroed (S ++ stringBytes p.name), strNextofs := (S ++ stringBytes p.name).length } := ⟨_, rfl⟩
  rw [← hfdt₂] at hstring
  have hdt₂ : fdt₂.dt = zeroed (D ++ H) := by rw [hfdt₂, hfdt₁]
  have hnext₂ : fdt₂.dtNextofs = D.length := by rw [hfdt₂, ← hnext₁]
  have hbytes : propertyBytes p S.length = padded4 (H ++ (beBytes 4 S.length ++ p.value)) := by
    rw [propertyBytes, hH]
    simp only [List.append_assoc]
  have hlen : (H ++ (beBytes 4 S.length ++ p.value)).length = 12 + p.value.length := by
    simp only [hH, List.length_append, beBytes_length]
    omega
  have hpad := pad4_lt (12 + p.value.length)
  have hdata : fdt₂.write (fdt₂.dtNextofs + 8) (fdt32 (S.length : Int) ++ p.value) =
      some { fdt₂ with dt := zeroed (D ++ propertyBytes p S.length) } := by
    rw [fdt32_natCast (by omega), hbytes, zeroed_padded (by rw [hlen]; omega), ← List.append_assoc]
    refine write_zeroed hdt₂ (by rw [hnext₂, hHlen]) ?_
    rw [hHlen, List.length_append, beBytes_length]
    omega
  have hnext : dtNextOfs fdt₂.dtNextofs (12 + p.value.length) = (D ++ propertyBytes p S.length).length := by
    rw [hnext₂, dtNextOfs_eq h.aligned (by omega), List.length_append, hbytes, padded4_length, hlen]
  refine ⟨{ fdt₂ with
    dt := zeroed (D ++ propertyBytes p S.length)
    dtNextofs := dtNextOfs fdt₂.dtNextofs (12 + p.value.length) }, ?_, ?_⟩
  · unfold flattenProperty
    rw [hspace]
    simp only
    rw [if_neg (by decide), hwrite]
    simp only
    rw [hstring]
    simp only
    rw [if_neg (by rw [hfdt₂]; simp), hdata]
  · exact {
      dt := rfl
      dt_le := by
        rw [List.length_append, hbytes, padded4_length, hlen]
        omega
      aligned := by
        rw [List.length_append, hbytes, padded4_length]
        exact Nat.dvd_add h.aligned (dvd_pad4 _)
      dtNextofs := hnext
      strings := by rw [hfdt₂]
      strings_le := hstrings
      strNextofs := by rw [hfdt₂]
      reallocs := by
        rw [← hstr₁.2.2, hfdt₂]
        rfl }

theorem Written.endNode {fdt : Fdt} {D S : Bytes} {junk : Junk} (h : Written fdt D S)
    (hgrow : (flattenEndNode junk fdt).1.reallocs = 0) :
    ∃ fdt', flattenEndNode junk fdt = (fdt', some 0) ∧ Written fdt' (D ++ beBytes 4 fdtEndNode) S := by
  have hbuf : fdtBufsize = 65536 := rfl
  have hdtle := h.dt_le
  have hlen : (D ++ beBytes 4 fdtEndNode).length = D.length + 4 := by simp only [List.length_append, beBytes_length]
  have hwrite : fdt.write fdt.dtNextofs (fdt32 fdtEndNode) =
      some { fdt with dt := zeroed (D ++ beBytes 4 fdtEndNode) } := by
    rw [fdt32_natCast (by decide)]
    exact write_zeroed h.dt h.dtNextofs (by rw [beBytes_length]; omega)
  have hnext : dtNextOfs fdt.dtNextofs 4 = (D ++ beBytes 4 fdtEndNode).length := by
    rw [h.dtNextofs, dtNextOfs_eq h.aligned hdtle, hlen]
    rfl
  obtain ⟨fdt', hfdt'⟩ : ∃ fdt', fdt' = { fdt with
      dt := zeroed (D ++ beBytes 4 fdtEndNode), dtNextofs := dtNextOfs fdt.dtNextofs 4 } := ⟨_, rfl⟩
  have hend : flattenEndNode junk fdt = ((fdtEnsureSpace junk fdt' 0).1,
      some (if (fdtEnsureSpace junk fdt' 0).2 < 0 then -ENOMEM else 0)) := by
    unfold flattenEndNode
    rw [hwrite]
    simp only
    rw [← hfdt']
    split <;> rfl
  rw [hend] at hgrow
  have hreallocs : fdt'.reallocs = 0 := by
    rw [← h.reallocs, hfdt']
    rfl
  have hstrings : fdt'.strings = zeroed S ∧ fdt'.strNextofs = S.length ∧
      fdt'.dtNextofs = (D ++ beBytes 4 fdtEndNode).length ∧ fdt'.dt = zeroed (D ++ beBytes 4 fdtEndNode) := by
    rw [hfdt']
    exact ⟨h.strings, h.strNextofs, hnext, rfl⟩
  have hstrle := h.strings_le
  obtain ⟨hspace, hroom, _⟩ :=
    fdtEnsureSpace_eq (by rw [hstrings.2.2.2, zeroed_length (by omega)]) (by omega)
      (by rw [hstrings.1, zeroed_length hstrle]) (by omega) hreallocs hgrow
  refine ⟨fdt', ?_, ?_⟩
  · rw [hend, hspace]
    rfl
  · exact {
      dt := hstrings.2.2.2
      dt_le := by omega
      aligned := by
        rw [hlen]
        exact Nat.dvd_add h.aligned (Nat.dvd_refl 4)
      dtNextofs := hstrings.2.2.1
      strings := hstrings.1
      strings_le := hstrle
      strNextofs := hstrings.2.1
      reallocs := hreallocs }

theorem Written.properties {junk : Junk} : ∀ {properties : List Property} {fdt : Fdt} {D S : Bytes}, Written fdt D S →
    (∀ p ∈ properties, RoomyName p.name) → (flattenProperties junk properties fdt).1.reallocs = 0 →
    ∃ fdt', flattenProperties junk properties fdt = (fdt', some 0) ∧
      Written fdt' (D ++ propertiesBytes properties S.length) (S ++ propertiesStrings properties)
  | [], fdt, D, S, h, _, _ => ⟨fdt, rfl, by simpa [propertiesBytes, propertiesStrings] using h⟩
  | p :: properties, fdt, D, S, h, hnames, hgrow => by
    unfold flattenProperties at hgrow ⊢
    have hmore := andThen_reallocs (r := flattenProperty junk p fdt) (flattenProperties_reallocs junk properties)
    obtain ⟨fdt₁, heq₁, h₁⟩ := h.property (hnames p (.head _)) (Nat.le_zero.1 (hmore.trans_eq hgrow))
    rw [heq₁] at hgrow ⊢
    obtain ⟨fdt', heq', h'⟩ := h₁.properties (fun q hq => hnames q (.tail _ hq)) hgrow
    refine ⟨fdt', heq', ?_⟩
    rw [List.append_assoc, List.append_assoc, List.length_append] at h'
    exact h'

/-- The names of a node and its properties. -/
def ShortNames (node : DeviceNode) : Prop := ShortName node.name ∧ ∀ p ∈ node.properties, ShortName p.name

def RoomyNames (node : DeviceNode) : Prop := RoomyName node.name ∧ ∀ p ∈ node.properties, RoomyName p.name

/-- Names of nodes that are copied, and of properties that have room. -/
def CopiedNames (node : DeviceNode) : Prop := CopiedName node.name ∧ ∀ p ∈ node.properties, RoomyName p.name

theorem ShortNames.roomy {node : DeviceNode} (h : ShortNames node) : RoomyNames node :=
  ⟨h.1.roomy, fun p hp => (h.2 p hp).roomy⟩

theorem RoomyNames.copied {node : DeviceNode} (h : RoomyNames node) : CopiedNames node := ⟨h.1.copied, h.2⟩

/-- Where not even a tag fits, nothing of a node does. -/
theorem Fdt.Overrun.node {fdt : Fdt} {junk : Junk} (h : fdt.Overrun) (properties : List Property)
    (children : List DeviceNode)
    (hgrow : (andThen (flattenProperties junk properties fdt) fun fdt =>
      andThen (flattenNodes junk children fdt) (flattenEndNode junk)).1.reallocs = 0) :
    (andThen (flattenProperties junk properties fdt) fun fdt =>
      andThen (flattenNodes junk children fdt) (flattenEndNode junk)).2 = none := by
  have hmore : ∀ fdt, fdt.reallocs ≤ (andThen (flattenNodes junk children fdt) (flattenEndNode junk)).1.reallocs :=
    fun fdt => (flattenNodes_reallocs junk children fdt).trans (andThen_reallocs (flattenEndNode_reallocs junk))
  cases properties with
  | cons p properties =>
    have hgrow₁ := Nat.le_zero.1 ((andThen_reallocs hmore).trans_eq hgrow)
    rw [flattenProperties] at hgrow₁ ⊢
    have hgrow₂ := Nat.le_zero.1 ((andThen_reallocs (flattenProperties_reallocs junk properties)).trans_eq hgrow₁)
    exact andThen_none (andThen_none (h.property hgrow₂))
  | nil =>
    change (andThen (flattenNodes junk children fdt) (flattenEndNode junk)).1.reallocs = 0 at hgrow
    change (andThen (flattenNodes junk children fdt) (flattenEndNode junk)).2 = none
    cases children with
    | nil => exact h.endNode
    | cons node nodes =>
      have hgrow₁ := Nat.le_zero.1 ((andThen_reallocs (flattenEndNode_reallocs junk)).trans_eq hgrow)
      rw [flattenNodes] at hgrow₁ ⊢
      have hgrow₂ := Nat.le_zero.1 ((andThen_reallocs (flattenNodes_reallocs junk nodes)).trans_eq hgrow₁)
      refine andThen_none (andThen_none ?_)
      cases node with
      | node name phandle properties children =>
        rw [flattenNode] at hgrow₂ ⊢
        refine andThen_none (h.beginNode (Nat.le_zero.1 ((andThen_reallocs fun fdt => ?_).trans_eq hgrow₂)))
        exact (flattenProperties_reallocs junk properties fdt).trans (andThen_reallocs fun fdt =>
          (flattenNodes_reallocs junk children fdt).trans (andThen_reallocs (flattenEndNode_reallocs junk)))

mutual
/-- **The flattener writes the encoding of the tree** behind what it has
written, as long as no buffer grows; only names that have no room may make it
fault instead. -/
theorem Written.node {junk : Junk} : ∀ {node : DeviceNode} {fdt : Fdt} {D S : Bytes}, Written fdt D S →
    node.All CopiedNames → node.All RoomyNames ∨ (flattenNode junk node fdt).2 ≠ none →
    (flattenNode junk node fdt).1.reallocs = 0 →
    ∃ fdt', flattenNode junk node fdt = (fdt', some 0) ∧
      Written fdt' (D ++ nodeBytes node S.length) (S ++ nodeStrings node)
  | .node name phandle properties children, fdt, D, S, h, hnames, hok, hgrow => by
    obtain ⟨⟨hname, hprops⟩, hchildren⟩ := hnames
    change CopiedName name at hname
    change ∀ p ∈ properties, RoomyName p.name at hprops
    have hmore₃ : ∀ fdt, fdt.reallocs ≤ (andThen (flattenNodes junk children fdt) (flattenEndNode junk)).1.reallocs :=
      fun fdt => (flattenNodes_reallocs junk children fdt).trans (andThen_reallocs (flattenEndNode_reallocs junk))
    have hmore₂ : ∀ fdt, fdt.reallocs ≤ (andThen (flattenProperties junk properties fdt) fun fdt =>
        andThen (flattenNodes junk children fdt) (flattenEndNode junk)).1.reallocs :=
      fun fdt => (flattenProperties_reallocs junk properties fdt).trans (andThen_reallocs hmore₃)
    unfold flattenNode at hok hgrow ⊢
    have hgrow₁ : (flattenBeginNode junk name fdt).1.reallocs = 0 :=
      Nat.le_zero.1 ((andThen_reallocs hmore₂).trans_eq hgrow)
    have hfits : (D ++ beginNodeBytes name).length + 4 ≤ fdtBufsize := by
      rcases hok with hroomy | hok
      · rw [flattenBeginNode_reallocs] at hgrow₁
        exact RoomyName.fits hroomy.1.1 (h.ensureSpace hgrow₁).2.1
      · by_contra hover
        refine hok ?_
        rcases h.beginNode_overrun hname (Nat.lt_of_not_le hover) hgrow₁ with hnone | ⟨fdt₁, heq₁, hrun⟩
        · exact andThen_none hnone
        · rw [heq₁] at hgrow ⊢
          exact hrun.node properties children hgrow
    obtain ⟨fdt₁, heq₁, h₁⟩ := h.beginNode hname hfits hgrow₁
    rw [heq₁] at hok hgrow ⊢
    have hgrow₂ : (flattenProperties junk properties fdt₁).1.reallocs = 0 :=
      Nat.le_zero.1 ((andThen_reallocs hmore₃).trans_eq hgrow)
    obtain ⟨fdt₂, heq₂, h₂⟩ := h₁.properties hprops hgrow₂
    simp only [andThen, heq₂] at hok hgrow ⊢
    have hgrow₃ : (flattenNodes junk children fdt₂).1.reallocs = 0 :=
      Nat.le_zero.1 ((andThen_reallocs (flattenEndNode_reallocs junk)).trans_eq hgrow)
    have hok₃ : allNodes RoomyNames children ∨ (flattenNodes junk children fdt₂).2 ≠ none :=
      hok.imp (fun hroomy => hroomy.2) fun hok hnone => hok (andThen_none hnone)
    obtain ⟨fdt₃, heq₃, h₃⟩ := h₂.nodes hchildren hok₃ hgrow₃
    simp only [heq₃] at hgrow ⊢
    obtain ⟨fdt', heq', h'⟩ := h₃.endNode hgrow
    refine ⟨fdt', heq', ?_⟩
    simpa only [nodeBytes, nodeStrings, List.append_assoc, List.length_append] using h'

theorem Written.nodes {junk : Junk} : ∀ {nodes : List DeviceNode} {fdt : Fdt} {D S : Bytes}, Written fdt D S →
    allNodes CopiedNames nodes → allNodes RoomyNames nodes ∨ (flattenNodes junk nodes fdt).2 ≠ none →
    (flattenNodes junk nodes fdt).1.reallocs = 0 →
    ∃ fdt', flattenNodes junk nodes fdt = (fdt', some 0) ∧
      Written fdt' (D ++ nodesBytes nodes S.length) (S ++ nodesStrings nodes)
  | [], fdt, D, S, h, _, _, _ => ⟨fdt, rfl, by simpa [nodesBytes, nodesStrings] using h⟩
  | node :: nodes, fdt, D, S, h, hnames, hok, hgrow => by
    unfold flattenNodes at hok hgrow ⊢
    have hgrow₁ : (flattenNode junk node fdt).1.reallocs = 0 :=
      Nat.le_zero.1 ((andThen_reallocs (flattenNodes_reallocs junk nodes)).trans_eq hgrow)
    have hok₁ : node.All RoomyNames ∨ (flattenNode junk node fdt).2 ≠ none :=
      hok.imp (fun hroomy => hroomy.1) fun hok hnone => hok (andThen_none hnone)
    obtain ⟨fdt₁, heq₁, h₁⟩ := h.node hnames.1 hok₁ hgrow₁
    rw [heq₁] at hok hgrow ⊢
    obtain ⟨fdt', heq', h'⟩ := h₁.nodes hnames.2 (hok.imp_left fun hroomy => hroomy.2) hgrow
    refine ⟨fdt', heq', ?_⟩
    simpa only [nodesBytes, nodesStrings, List.append_assoc, List.length_append] using h'
end

/-! ## Trees for which no buffer grows -/

theorem fdtEnsureSpace_of_room {fdt : Fdt} (junk : Junk) {dtsize : Nat} (hdt : fdt.dt.length = fdtBufsize)
    (hdtle : fdt.dtNextofs + 1024 + dtsize ≤ fdtBufsize) (hstr : fdt.strings.length = fdtBufsize)
    (hstrle : fdt.strNextofs + 1024 ≤ fdtBufsize) (h : fdt.reallocs = 0) :
    (fdtEnsureSpace junk fdt dtsize).1.reallocs = 0 := by
  have hspace : ¬ sub32 fdt.strings.length fdt.strNextofs < 1024 := by
    rw [hstr, sub32_of_le (by omega) (by decide)]
    omega
  have hspace' : ¬ sub32 fdt.dt.length fdt.dtNextofs < 1024 + dtsize := by
    rw [hdt, sub32_of_le (by omega) (by decide)]
    omega
  have hstrings : fdtGrowStrings junk fdt = fdt := if_neg hspace
  have hdts : fdtGrowDt junk fdt dtsize = fdt := if_neg hspace'
  unfold fdtEnsureSpace
  simp only [hstrings, hdts]
  repeat' split
  all_goals exact h

theorem Written.ensureSpace_of_room {fdt : Fdt} {D S : Bytes} (h : Written fdt D S) (junk : Junk) {dtsize : Nat}
    (hdt : D.length + 1024 + dtsize ≤ fdtBufsize) (hstr : S.length + 1024 ≤ fdtBufsize) :
    (fdtEnsureSpace junk fdt dtsize).1.reallocs = 0 :=
  fdtEnsureSpace_of_room junk h.dt_length (h.dtNextofs ▸ hdt) h.strings_length (h.strNextofs ▸ hstr) h.reallocs

theorem Written.property_of_room {fdt : Fdt} {D S : Bytes} {junk : Junk} {p : Property} (h : Written fdt D S)
    (hdt : D.length + 1024 + p.value.length ≤ fdtBufsize) (hstr : S.length + 1024 ≤ fdtBufsize) :
    (flattenProperty junk p fdt).1.reallocs = 0 := by
  have hgrow := h.ensureSpace_of_room junk hdt hstr
  obtain ⟨hspace, _⟩ := h.ensureSpace hgrow
  cases hwrite : fdt.write fdt.dtNextofs (fdt32 fdtProp ++ fdt32 p.value.length) with
  | none =>
    unfold flattenProperty
    rw [hspace]
    simp only
    rw [if_neg (by decide), hwrite]
    exact h.reallocs
  | some fdt₁ =>
    have hsame : fdt₁.dt.length = fdtBufsize ∧ fdt₁.dtNextofs = fdt.dtNextofs ∧ fdt₁.strings = fdt.strings ∧
        fdt₁.strNextofs = fdt.strNextofs := by
      have hw := hwrite
      unfold Fdt.write at hw
      split at hw
      · next hin =>
        obtain rfl := Option.some.inj hw
        exact ⟨(splice_length hin).trans h.dt_length, rfl, rfl, rfl⟩
      · cases hw
    rw [flattenProperty_reallocs_of_write (by simp [hspace]) (by rw [hspace]; exact hwrite), dtAddString_reallocs]
    refine fdtEnsureSpace_of_room junk hsame.1 (by rw [hsame.2.1, h.dtNextofs]; omega) ?_ ?_ ?_
    · rw [hsame.2.2.1]
      exact h.strings_length
    · rw [hsame.2.2.2, h.strNextofs]
      exact hstr
    · rw [Fdt.write_reallocs hwrite]
      exact h.reallocs

theorem Written.endNode_of_room {fdt : Fdt} {D S : Bytes} {junk : Junk} (h : Written fdt D S)
    (hdt : D.length + 4 + 1024 ≤ fdtBufsize) (hstr : S.length + 1024 ≤ fdtBufsize) :
    (flattenEndNode junk fdt).1.reallocs = 0 := by
  have hlen : (D ++ beBytes 4 fdtEndNode).length = D.length + 4 := by rw [List.length_append, beBytes_length]
  have hwrite : fdt.write fdt.dtNextofs (fdt32 fdtEndNode) =
      some { fdt with dt := zeroed (D ++ beBytes 4 fdtEndNode) } := by
    rw [fdt32_natCast (by decide)]
    exact write_zeroed h.dt h.dtNextofs (by rw [beBytes_length]; omega)
  have hnext : dtNextOfs fdt.dtNextofs 4 = D.length + 4 := by
    rw [h.dtNextofs, dtNextOfs_eq h.aligned h.dt_le]
    rfl
  have hgrow : (fdtEnsureSpace junk { fdt with
      dt := zeroed (D ++ beBytes 4 fdtEndNode), dtNextofs := dtNextOfs fdt.dtNextofs 4 } 0).1.reallocs = 0 := by
    refine fdtEnsureSpace_of_room junk (zeroed_length (by omega)) ?_ h.strings_length ?_ h.reallocs
    · simp only [hnext]
      omega
    · simp only [h.strNextofs]
      omega
  unfold flattenEndNode
  rw [hwrite]
  simp only
  split <;> exact hgrow

theorem andThen_of_zero {r : Fdt × Option Int} {k : Fdt → Fdt × Option Int} {fdt : Fdt} (h : r = (fdt, some 0)) :
    andThen r k = k fdt := by
  rw [h]
  rfl

theorem Written.properties_of_room {junk : Junk} : ∀ {properties : List Property} {fdt : Fdt} {D S : Bytes},
    Written fdt D S → (∀ p ∈ properties, RoomyName p.name) →
    D.length + (propertiesBytes properties S.length).length + 1024 ≤ fdtBufsize →
    S.length + (propertiesStrings properties).length + 1024 ≤ fdtBufsize →
    (flattenProperties junk properties fdt).1.reallocs = 0
  | [], _, _, _, h, _, _, _ => h.reallocs
  | p :: properties, fdt, D, S, h, hnames, hdt, hstr => by
    simp only [propertiesBytes, propertiesStrings, List.flatMap_cons, List.length_append] at hdt hstr
    have hlen : p.value.length ≤ (propertyBytes p S.length).length := by
      have := le_pad4 (4 + 4 + 4 + p.value.length)
      simp only [propertyBytes, padded4_length, List.length_append, beBytes_length]
      omega
    have hfirst := @Written.property_of_room _ _ _ junk p h (by omega) (by omega)
    obtain ⟨fdt₁, heq₁, h₁⟩ := h.property (hnames p (.head _)) hfirst
    unfold flattenProperties
    rw [andThen_of_zero heq₁]
    refine h₁.properties_of_room (fun q hq => hnames q (.tail _ hq)) ?_ ?_
    · simp only [List.length_append]
      omega
    · simp only [List.length_append, propertiesStrings]
      omega

mutual
theorem Written.node_of_room {junk : Junk} : ∀ {node : DeviceNode} {fdt : Fdt} {D S : Bytes}, Written fdt D S →
    node.All RoomyNames → D.length + (nodeBytes node S.length).length + 1024 ≤ fdtBufsize →
    S.length + (nodeStrings node).length + 1024 ≤ fdtBufsize → (flattenNode junk node fdt).1.reallocs = 0
  | .node name phandle properties children, fdt, D, S, h, hnames, hdt, hstr => by
    obtain ⟨⟨hname, hprops⟩, hchildren⟩ := hnames
    change RoomyName name at hname
    change ∀ p ∈ properties, RoomyName p.name at hprops
    simp only [nodeBytes, nodeStrings, List.length_append, beBytes_length] at hdt hstr
    have hgrow₁ : (flattenBeginNode junk name fdt).1.reallocs = 0 := by
      rw [flattenBeginNode_reallocs]
      exact h.ensureSpace_of_room junk (by omega) (by omega)
    obtain ⟨fdt₁, heq₁, h₁⟩ := h.beginNode hname.copied (by rw [List.length_append]; omega) hgrow₁
    have hgrow₂ := @Written.properties_of_room junk _ _ _ _ h₁ hprops (by rw [List.length_append]; omega) (by omega)
    obtain ⟨fdt₂, heq₂, h₂⟩ := h₁.properties hprops hgrow₂
    have hgrow₃ : (flattenNodes junk children fdt₂).1.reallocs = 0 :=
      h₂.nodes_of_room hchildren (by simp only [List.length_append]; omega) (by simp only [List.length_append]; omega)
    obtain ⟨fdt₃, heq₃, h₃⟩ := h₂.nodes (allNodes_imp (fun _ => RoomyNames.copied) hchildren) (.inl hchildren) hgrow₃
    unfold flattenNode
    rw [andThen_of_zero heq₁, andThen_of_zero heq₂, andThen_of_zero heq₃]
    refine h₃.endNode_of_room ?_ ?_
    · simp only [List.length_append]
      omega
    · simp only [List.length_append]
      omega

theorem Written.nodes_of_room {junk : Junk} : ∀ {nodes : List DeviceNode} {fdt : Fdt} {D S : Bytes}, Written fdt D S →
    allNodes RoomyNames nodes → D.length + (nodesBytes nodes S.length).length + 1024 ≤ fdtBufsize →
    S.length + (nodesStrings nodes).length + 1024 ≤ fdtBufsize → (flattenNodes junk nodes fdt).1.reallocs = 0
  | [], _, _, _, h, _, _, _ => h.reallocs
  | node :: nodes, fdt, D, S, h, hnames, hdt, hstr => by
    simp only [nodesBytes, nodesStrings, List.length_append] at hdt hstr
    have hgrow₁ : (flattenNode junk node fdt).1.reallocs = 0 := h.node_of_room hnames.1 (by omega) (by omega)
    obtain ⟨fdt₁, heq₁, h₁⟩ := h.node (hnames.1.imp fun _ => RoomyNames.copied) (.inl hnames.1) hgrow₁
    unfold flattenNodes
    rw [andThen_of_zero heq₁]
    refine h₁.nodes_of_room hnames.2 ?_ ?_
    · simp only [List.length_append]
      omega
    · simp only [List.length_append]
      omega
end

end DtUtils
