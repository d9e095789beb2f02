/-
The typed property reads of `libdt.c`. The size they ask for is computed as a
`size_t` and handed to `of_find_property_value_of_size` as a `uint32_t`;
`typed_reads_iff` says for which sizes the loops behind it stay inside the
value.
-/
import DtUtils.DeviceTree
import Mathlib

namespace DtUtils
open Lib

/-! ## The reads -/

/-- The loop of the array reads: `n` elements of `w` bytes. `none` is a read
outside the value. -/
def beElements (w : Nat) : Nat → Bytes → Option (List Nat)
  | 0, _ => some []
  | n + 1, val => if val.length < w then none else (beElements w n (val.drop w)).map (beNat (val.take w) :: ·)

/-- The 32-bit `len` that a `size_t` comes to. -/
def lenOf (size : Nat) : Nat := size % 2 ^ 64 % 2 ^ 32

/-- `of_property_read_u32_index` -/
def ofPropertyReadU32Index (np : DeviceNode) (propname : CString) (index : UInt32) : Option (Except Int UInt32) :=
  match ofFindPropertyValueOfSize np propname (lenOf ((index + 1).toNat * 4)) with
  | .error e => some (.error e)
  | .ok val => if val.length < 4 * index.toNat + 4 then none else some (.ok (cell (4 * index.toNat) val))

/-- The array reads: `sz` elements of `w` bytes, each an `α`. -/
def readArray {α : Type} (w : Nat) (ofNat : Nat → α) (np : DeviceNode) (propname : CString) (sz : UInt64) :
    Option (Except Int (List α)) :=
  match ofFindPropertyValueOfSize np propname (lenOf (sz.toNat * w)) with
  | .error e => some (.error e)
  | .ok val => (beElements w sz.toNat val).map fun xs => .ok (xs.map ofNat)

/-- `of_property_read_u8_array` -/
def ofPropertyReadU8Array : DeviceNode → CString → UInt64 → Option (Except Int (List UInt8)) := readArray 1 .ofNat

/-- `of_property_read_u16_array` -/
def ofPropertyReadU16Array : DeviceNode → CString → UInt64 → Option (Except Int (List UInt16)) := readArray 2 .ofNat

/-- `of_property_read_u32_array` -/
def ofPropertyReadU32Array : DeviceNode → CString → UInt64 → Option (Except Int (List UInt32)) := readArray 4 .ofNat

/-! ## What they are to return -/

/-- The read returns `x` if the property holds at least `size` bytes, and an
error otherwise. -/
def ReadSound {α : Type} (np : DeviceNode) (propname : CString) (size : Nat) (x : Bytes → α)
    (r : Option (Except Int α)) : Prop :=
  match ofFindProperty np propname with
  | none => ∃ e, e < 0 ∧ r = some (.error e)
  | some p => if size ≤ p.value.length then r = some (.ok (x p.value)) else ∃ e, e < 0 ∧ r = some (.error e)

/-- The `n` elements of `w` bytes at the beginning of a value. -/
def elements {α : Type} (w : Nat) (ofNat : Nat → α) (n : Nat) (value : Bytes) : List α :=
  (List.range n).map fun i => ofNat (beNat (slice (w * i) w value))

/-- The size fits 32 bits, or what is left of it there is still more than the
property holds. -/
def SizeSeen (np : DeviceNode) (propname : CString) (size : Nat) : Prop :=
  ∀ p, ofFindProperty np propname = some p → size < 2 ^ 32 ∨ p.value.length < size % 2 ^ 32

/-! ## The loop -/

theorem beElements_eq_some {w : Nat} : ∀ {n : Nat} {val : Bytes}, w * n ≤ val.length →
    beElements w n val = some ((List.range n).map fun i => beNat (slice (w * i) w val))
  | 0, _, _ => rfl
  | n + 1, val, h => by
    rw [Nat.mul_succ] at h
    have hrest : w * n ≤ (val.drop w).length := by
      rw [List.length_drop]
      omega
    rw [beElements, if_neg (by omega), beElements_eq_some hrest, Option.map_some, List.range_succ_eq_map]
    simp only [List.map_cons, List.map_map, Nat.mul_zero, slice_zero_left]
    congr 2
    refine List.map_congr_left fun i _ => ?_
    simp only [Function.comp_apply, slice, List.drop_drop, Nat.mul_succ, Nat.add_comm]

theorem beElements_eq_none {w : Nat} : ∀ {n : Nat} {val : Bytes}, val.length < w * n → beElements w n val = none
  | 0, _, h => by simp at h
  | n + 1, val, h => by
    rw [beElements]
    split
    · rfl
    · rw [Nat.mul_succ] at h
      rw [beElements_eq_none (by rw [List.length_drop]; omega)]
      rfl

/-! ## When they do -/

section
variable {np : DeviceNode} {propname : CString}

/-- The check of the size in 32 bits, and a read that is right behind it if
the property holds `size` bytes and leaves the value if it does not. -/
theorem readSound_iff {α : Type} {size len : Nat} {x : Bytes → α} {read : Bytes → Option (Except Int α)}
    (hlen : ∀ p, ofFindProperty np propname = some p → p.value.length < 2 ^ 31) (hsize : len = size % 2 ^ 32)
    (hin : ∀ val, size ≤ val.length → read val = some (.ok (x val)))
    (hout : ∀ val, val.length < size → read val = none) :
    ReadSound np propname size x (match ofFindPropertyValueOfSize np propname len with
      | .error e => some (.error e)
      | .ok val => read val) ↔ SizeSeen np propname size := by
  unfold ReadSound SizeSeen ofFindPropertyValueOfSize
  cases hp : ofFindProperty np propname with
  | none =>
    simp only [reduceCtorEq, false_implies, implies_true, iff_true]
    exact ⟨-EINVAL, by decide, rfl⟩
  | some p =>
    have hl := hlen p hp
    subst hsize
    simp only [Option.some.injEq, forall_eq']
    by_cases hshort : p.value.length < size % 2 ^ 32
    · -- The check refuses it, and the property is too short.
      have := Nat.mod_le size (2 ^ 32)
      rw [if_pos hshort, if_neg (by omega)]
      exact iff_of_true ⟨-EOVERFLOW, by decide, rfl⟩ (.inr hshort)
    · rw [if_neg hshort]
      by_cases hfit : size ≤ p.value.length
      · rw [if_pos hfit]
        exact iff_of_true (hin _ hfit) (.inl (by omega))
      · -- Only the low bits of the size fit.
        rw [if_neg hfit]
        refine iff_of_false (fun h => ?_) (fun h => ?_)
        · obtain ⟨e, -, he⟩ := h
          simp only [hout _ (not_le.1 hfit), reduceCtorEq] at he
        · rcases h with h | h
          · rw [Nat.mod_eq_of_lt h] at hshort
            omega
          · exact hshort h

theorem lenOf_eq (size : Nat) : lenOf size = size % 2 ^ 32 := by
  rw [lenOf]
  omega

theorem ofPropertyReadU32Index_sound_iff (index : UInt32)
    (hlen : ∀ p, ofFindProperty np propname = some p → p.value.length < 2 ^ 31) :
    ReadSound np propname (4 * (index.toNat + 1)) (cell (4 * index.toNat))
      (ofPropertyReadU32Index np propname index) ↔ SizeSeen np propname (4 * (index.toNat + 1)) := by
  have hindex := index.toNat_lt
  refine readSound_iff hlen ?_ (fun val h => if_neg (by omega)) fun val h => if_pos (by omega)
  -- The sum has 32 bits, so the product has no more than 34.
  rw [lenOf_eq, UInt32.toNat_add]
  simp only [UInt32.toNat_one]
  omega

theorem readArray_sound_iff {α : Type} (w : Nat) (ofNat : Nat → α) (sz : UInt64)
    (hlen : ∀ p, ofFindProperty np propname = some p → p.value.length < 2 ^ 31) :
    ReadSound np propname (sz.toNat * w) (elements w ofNat sz.toNat) (readArray w ofNat np propname sz) ↔
      SizeSeen np propname (sz.toNat * w) := by
  refine readSound_iff hlen (lenOf_eq _) (fun val h => ?_) fun val h => ?_
  · rw [beElements_eq_some (by rwa [Nat.mul_comm]), elements, Option.map_some, List.map_map]
    rfl
  · rw [beElements_eq_none (by rwa [Nat.mul_comm]), Option.map_none]

end

/-- **When a typed read is in bounds**: it returns the big-endian elements
exactly if the property holds them, as long as the size of what is asked for
fits 32 bits or its low 32 bits exceed the property. -/
theorem typed_reads_iff {np : DeviceNode} {propname : CString}
    (hlen : ∀ p, ofFindProperty np propname = some p → p.value.length < 2 ^ 31) :
    (∀ index : UInt32, ReadSound np propname (4 * (index.toNat + 1)) (cell (4 * index.toNat))
      (ofPropertyReadU32Index np propname index) ↔ SizeSeen np propname (4 * (index.toNat + 1))) ∧
    ∀ sz : UInt64,
      (ReadSound np propname (sz.toNat * 1) (elements 1 .ofNat sz.toNat) (ofPropertyReadU8Array np propname sz) ↔
        SizeSeen np propname (sz.toNat * 1)) ∧
      (ReadSound np propname (sz.toNat * 2) (elements 2 .ofNat sz.toNat) (ofPropertyReadU16Array np propname sz) ↔
        SizeSeen np propname (sz.toNat * 2)) ∧
      (ReadSound np propname (sz.toNat * 4) (elements 4 .ofNat sz.toNat) (ofPropertyReadU32Array np propname sz) ↔
        SizeSeen np propname (sz.toNat * 4)) :=
  ⟨fun index => ofPropertyReadU32Index_sound_iff index hlen,
    fun sz => ⟨readArray_sound_iff 1 _ sz hlen, readArray_sound_iff 2 _ sz hlen, readArray_sound_iff 4 _ sz hlen⟩⟩

/-- A node with one property. -/
def singleProperty (name : String) (value : Bytes) : DeviceNode := .node .empty 0 [⟨cstr name, value⟩] []

/-- The second cell of a property with two cells. -/
theorem typed_reads_second_cell : ReadSound (singleProperty "reg" [0, 0, 0, 1, 0, 0, 0, 2]) (cstr "reg")
    (4 * ((1 : UInt32).toNat + 1)) (cell (4 * (1 : UInt32).toNat))
    (ofPropertyReadU32Index (singleProperty "reg" [0, 0, 0, 1, 0, 0, 0, 2]) (cstr "reg") 1) := by
  have hfind : ofFindProperty (singleProperty "reg" [0, 0, 0, 1, 0, 0, 0, 2]) (cstr "reg") =
      some ⟨cstr "reg", [0, 0, 0, 1, 0, 0, 0, 2]⟩ := by decide
  refine ((typed_reads_iff fun p hp => ?_).1 1).2 fun p _ => .inl (by decide)
  rw [hfind, Option.some.injEq] at hp
  rw [← hp]
  decide

/-- Of a property without any bytes the last cell that there could be is read,
and as many bytes as do not fit 32 bits. -/
theorem typed_reads_wrap :
    ¬ ReadSound (singleProperty "reg" []) (cstr "reg") (4 * ((0xffffffff : UInt32).toNat + 1))
      (cell (4 * (0xffffffff : UInt32).toNat))
      (ofPropertyReadU32Index (singleProperty "reg" []) (cstr "reg") 0xffffffff) ∧
    ¬ ReadSound (singleProperty "reg" []) (cstr "reg") ((2 ^ 32 : UInt64).toNat * 1)
      (elements 1 .ofNat (2 ^ 32 : UInt64).toNat)
      (ofPropertyReadU8Array (singleProperty "reg" []) (cstr "reg") (2 ^ 32)) := by
  have hfind : ofFindProperty (singleProperty "reg" []) (cstr "reg") = some ⟨cstr "reg", []⟩ := by decide
  have hlen : ∀ p, ofFindProperty (singleProperty "reg" []) (cstr "reg") = some p → p.value.length < 2 ^ 31 := by
    intro p hp
    rw [hfind, Option.some.injEq] at hp
    rw [← hp]
    decide
  have hsize : ∀ {size : Nat}, 2 ^ 32 ≤ size → size % 2 ^ 32 = 0 →
      ¬ SizeSeen (singleProperty "reg" []) (cstr "reg") size := by
    intro size hbig hzero h
    rcases h _ hfind with h | h
    · omega
    · rw [hzero] at h
      exact absurd h (Nat.not_lt_zero _)
  exact ⟨fun h => hsize (by decide) (by decide) ((ofPropertyReadU32Index_sound_iff _ hlen).1 h),
    fun h => hsize (by decide) (by decide) ((readArray_sound_iff 1 _ _ hlen).1 h)⟩

end DtUtils
