/-
`cdev_from_block_device`: the partition of a disk that holds a region, found
among the devices that udev lists below the disk. The region is given on the
disk and comes back relative to the partition (`block_device_translated`).
-/
import DtUtils.PartitionCells
import DtUtils.Values

namespace DtUtils
open Lib

/-- A block device as udev describes it. -/
structure UdevDevice where
  devtype : Option CString
  devnode : CString
  sysattr : CString → Option CString
  property : CString → Option CString

/-- `struct cdev` -/
structure Cdev where
  devpath : Option CString
  offset : Int
  size : UInt64
  isGptPartitioned : Bool
  isBlockDisk : Bool

/-- `udev_device_parse_sysattr_u64` -/
def udevDeviceParseSysattrU64 (dev : UdevDevice) (attr : CString) : Except Int UInt64 :=
  match dev.sysattr attr with
  | none => .error (-EINVAL)
  | some str =>
    let (value, endptr) := strtoul str.1 0
    if str.1 = [] ∨ endptr ≠ [] then .error (-EINVAL) else .ok (.ofNat value)

/-- `region_contains` -/
def regionContains (starta enda startb endb : Int) : Bool := starta ≤ startb ∧ endb ≤ enda

/-- The loop over the devices: the best match and the region's offset. -/
def bestMatchLoop (offset : Int) (size : UInt64) : Option UdevDevice → List UdevDevice → Option UdevDevice × Int
  | bestMatch, [] => (bestMatch, offset)
  | bestMatch, part :: devices =>
    match part.devtype with
    | none => bestMatchLoop offset size bestMatch devices
    | some devtype =>
      if devtype = cstr "disk" ∧ bestMatch.isNone then
        if size = 0 then (some part, offset) else bestMatchLoop offset size (some part) devices
      else if size ≠ 0 ∧ devtype = cstr "partition" then
        match udevDeviceParseSysattrU64 part (cstr "start"), udevDeviceParseSysattrU64 part (cstr "size") with
        | .ok partstart, .ok partsize =>
          let partstart := partstart * 512
          let partsize := partsize * 512
          if regionContains (offT partstart) (offT (partstart + partsize)) offset (offT (.ofInt offset + size)) then
            (some part, offT (.ofInt offset - partstart))
          else bestMatchLoop offset size bestMatch devices
        | _, _ => bestMatchLoop offset size bestMatch devices
      else bestMatchLoop offset size bestMatch devices

/-- `cdev_from_block_device`, with the devices that the enumeration lists. -/
def cdevFromBlockDevice (devices : List UdevDevice) (cdev : Cdev) : Cdev × Int :=
  match bestMatchLoop cdev.offset cdev.size none devices with
  | (none, _) => (cdev, -ENODEV)
  | (some bestMatch, offset) =>
    ({ cdev with
      offset := offset
      devpath := some bestMatch.devnode
      isGptPartitioned := bestMatch.property (cstr "ID_PART_TABLE_TYPE") = some (cstr "gpt") }, 0)

/-! ## Where partitions lie -/

def UdevDevice.IsDisk (dev : UdevDevice) : Prop := dev.devtype = some (cstr "disk")

instance (dev : UdevDevice) : Decidable dev.IsDisk := inferInstanceAs (Decidable (_ = _))

/-- The start and the size of a partition in bytes, if they can be parsed. -/
def UdevDevice.extent (dev : UdevDevice) : Option (Nat × Nat) :=
  if dev.devtype = some (cstr "partition") then
    match udevDeviceParseSysattrU64 dev (cstr "start"), udevDeviceParseSysattrU64 dev (cstr "size") with
    | .ok start, .ok size => some (512 * start.toNat, 512 * size.toNat)
    | _, _ => none
  else none

/-- The partition completely contains a region of the disk. -/
def UdevDevice.Contains (dev : UdevDevice) (offset size : Nat) : Prop :=
  ∃ e ∈ dev.extent, e.1 ≤ offset ∧ offset + size ≤ e.1 + e.2

instance (dev : UdevDevice) (offset size : Nat) : Decidable (dev.Contains offset size) :=
  inferInstanceAs (Decidable (∃ e ∈ dev.extent, e.1 ≤ offset ∧ offset + size ≤ e.1 + e.2))

/-- The region and the partitions end where an `off_t` can. -/
structure Addressable (devices : List UdevDevice) (cdev : Cdev) : Prop where
  offset : 0 ≤ cdev.offset
  region : cdev.offset + cdev.size.toNat < 2 ^ 63
  partitions : ∀ dev ∈ devices, ∀ start length, dev.extent = some (start, length) → start + length < 2 ^ 63

/-- What becomes of a region: `found` is the partition that holds it. -/
def Translated (devices : List UdevDevice) (found : Option UdevDevice) (cdev cdev' : Cdev) (ret : Int) : Prop :=
  match found with
  | some part => ret = 0 ∧ cdev'.devpath = some part.devnode ∧ cdev'.size = cdev.size ∧
      ∃ start length, part.extent = some (start, length) ∧ start + cdev'.offset = cdev.offset ∧
        0 ≤ cdev'.offset ∧ cdev'.offset + cdev.size.toNat ≤ length
  | none =>
    match devices.find? (·.IsDisk) with
    | some disk => ret = 0 ∧ cdev'.devpath = some disk.devnode ∧ cdev'.size = cdev.size ∧ cdev'.offset = cdev.offset
    | none => ret < 0 ∧ cdev' = cdev

/-! ## Conversions -/

theorem offT_of_lt {x : UInt64} (h : x.toNat < 2 ^ 63) : offT x = x.toNat := if_pos h

theorem toNat_ofInt {x : Int} (h₀ : 0 ≤ x) (h₁ : x < 2 ^ 64) : ((UInt64.ofInt x).toNat : Int) = x := by
  rw [UInt64.ofInt, UInt64.toNat_ofNat']
  omega

theorem mul_512_toNat {n : UInt64} (h : 512 * n.toNat < 2 ^ 63) : (n * 512).toNat = 512 * n.toNat := by
  rw [UInt64.toNat_mul, show (512 : UInt64).toNat = 512 by rfl]
  omega

/-! ## The loop -/

section
variable {offset : Int} {size : UInt64} {bestMatch : Option UdevDevice} {devices : List UdevDevice}

theorem UdevDevice.extent_eq_some {dev : UdevDevice} {start length : Nat} (h : dev.extent = some (start, length)) :
    dev.devtype = some (cstr "partition") ∧ ∃ partstart partsize,
      udevDeviceParseSysattrU64 dev (cstr "start") = .ok partstart ∧
      udevDeviceParseSysattrU64 dev (cstr "size") = .ok partsize ∧
      start = 512 * partstart.toNat ∧ length = 512 * partsize.toNat := by
  rw [UdevDevice.extent] at h
  split at h
  · next hpart =>
    split at h
    · next partstart partsize hstart hsize =>
      rw [Option.some.injEq, Prod.mk.injEq] at h
      exact ⟨hpart, partstart, partsize, hstart, hsize, h.1.symm, h.2.symm⟩
    · cases h
  · cases h

/-- The comparison of the ends in 64 bits. -/
theorem regionContains_iff {partstart partsize : UInt64} (h₀ : 0 ≤ offset) (h₁ : offset + size.toNat < 2 ^ 63)
    (hpart : 512 * partstart.toNat + 512 * partsize.toNat < 2 ^ 63) :
    regionContains (offT (partstart * 512)) (offT (partstart * 512 + partsize * 512)) offset
        (offT (.ofInt offset + size)) = true ↔
      (512 * partstart.toNat : Int) ≤ offset ∧
        offset + size.toNat ≤ 512 * partstart.toNat + 512 * partsize.toNat := by
  have hstart := mul_512_toNat (n := partstart) (by omega)
  have hsize := mul_512_toNat (n := partsize) (by omega)
  have hend : (partstart * 512 + partsize * 512).toNat = 512 * partstart.toNat + 512 * partsize.toNat := by
    rw [UInt64.toNat_add, hstart, hsize]
    omega
  have hoffset := toNat_ofInt h₀ (by omega)
  have hregion : (UInt64.ofInt offset + size).toNat = (UInt64.ofInt offset).toNat + size.toNat := by
    rw [UInt64.toNat_add]
    omega
  rw [regionContains, decide_eq_true_iff, offT_of_lt (by omega), offT_of_lt (by omega), offT_of_lt (by omega), hstart,
    hend, hregion]
  omega

/-- A round at a partition whose place is known. -/
theorem bestMatchLoop_extent {part : UdevDevice} {start length : Nat} (hextent : part.extent = some (start, length))
    (hsize : size ≠ 0) (h₀ : 0 ≤ offset) (h₁ : offset + size.toNat < 2 ^ 63) (hfits : start + length < 2 ^ 63) :
    bestMatchLoop offset size bestMatch (part :: devices) =
      if part.Contains offset.toNat size.toNat then (some part, offset - start)
      else bestMatchLoop offset size bestMatch devices := by
  obtain ⟨htype, partstart, partsize, hstart, hlength, rfl, rfl⟩ := UdevDevice.extent_eq_some hextent
  have hcontains : part.Contains offset.toNat size.toNat ↔ (512 * partstart.toNat : Int) ≤ offset ∧
      offset + size.toNat ≤ 512 * partstart.toNat + 512 * partsize.toNat := by
    simp only [UdevDevice.Contains, hextent, Option.mem_def, Option.some.injEq, exists_eq_left']
    omega
  have hne : cstr "partition" ≠ cstr "disk" := by decide
  simp only [bestMatchLoop, htype, hne, false_and, if_false, ne_eq, hsize, not_false_eq_true, and_self, if_true, hstart,
    hlength, regionContains_iff h₀ h₁ hfits, ← hcontains]
  split
  · next hin =>
    rw [hcontains] at hin
    have hstart64 := mul_512_toNat (n := partstart) (by omega)
    have hoffset64 := toNat_ofInt h₀ (by omega)
    have hsub : (UInt64.ofInt offset - partstart * 512).toNat =
        (UInt64.ofInt offset).toNat - 512 * partstart.toNat := by
      rw [UInt64.toNat_sub_of_le _ _ (UInt64.le_iff_toNat_le.2 (by omega)), hstart64]
    rw [offT_of_lt (by omega), hsub]
    congr 1
    omega
  · rfl

/-- A round at any other device: a disk is remembered if it is the first. -/
theorem bestMatchLoop_no_extent {part : UdevDevice} (hextent : part.extent = none) (hsize : size ≠ 0) :
    bestMatchLoop offset size bestMatch (part :: devices) =
      bestMatchLoop offset size (bestMatch.or (if part.IsDisk then some part else none)) devices := by
  rw [UdevDevice.extent] at hextent
  by_cases hdisk : part.IsDisk
  · have htype : part.devtype = some (cstr "disk") := hdisk
    have hne : cstr "disk" ≠ cstr "partition" := by decide
    rw [if_pos hdisk, bestMatchLoop]
    cases bestMatch with
    | none => simp [htype, hsize]
    | some best => simp [htype, hne]
  · rw [if_neg hdisk, Option.or_none, bestMatchLoop]
    split
    · rfl
    · next devtype htype =>
      have hne : devtype ≠ cstr "disk" := fun h => hdisk (htype.trans (congrArg some h))
      rw [if_neg (fun h => hne h.1)]
      split
      · next hpart =>
        -- The type is right, so a number cannot be parsed.
        rw [if_pos (htype.trans (congrArg some hpart.2))] at hextent
        split
        · next hstart hlength =>
          rw [hstart, hlength] at hextent
          cases hextent
        · rfl
      · rfl

/-- With a size the first partition that contains the region wins over every
disk. -/
theorem bestMatchLoop_eq (hsize : size ≠ 0) (h₀ : 0 ≤ offset) (h₁ : offset + size.toNat < 2 ^ 63)
    (hparts : ∀ dev ∈ devices, ∀ start length, dev.extent = some (start, length) → start + length < 2 ^ 63) :
    bestMatchLoop offset size bestMatch devices =
      match devices.find? (·.Contains offset.toNat size.toNat) with
      | some part => (some part, offset - (part.extent.map Prod.fst).getD 0)
      | none => (bestMatch.or (devices.find? (·.IsDisk)), offset) := by
  induction devices generalizing bestMatch with
  | nil => simp [bestMatchLoop]
  | cons part devices ih =>
    have hrest := fun dev hdev => hparts dev (List.mem_cons_of_mem part hdev)
    rw [List.find?_cons, List.find?_cons]
    cases hextent : part.extent with
    | none =>
      have hout : ¬ part.Contains offset.toNat size.toNat := by simp [UdevDevice.Contains, hextent]
      rw [bestMatchLoop_no_extent hextent hsize, ih hrest, decide_eq_false hout]
      by_cases hdisk : part.IsDisk
      · rw [if_pos hdisk, decide_eq_true hdisk]
        cases bestMatch <;> rfl
      · rw [if_neg hdisk, decide_eq_false hdisk, Option.or_none]
    | some extent =>
      obtain ⟨start, length⟩ := extent
      rw [bestMatchLoop_extent hextent hsize h₀ h₁ (hparts part List.mem_cons_self _ _ hextent)]
      by_cases hin : part.Contains offset.toNat size.toNat
      · simp only [if_pos hin, decide_eq_true hin, hextent, Option.map_some, Option.getD_some]
      · have hnodisk : ¬ part.IsDisk := by
          intro hdisk
          exact absurd (hdisk.symm.trans (UdevDevice.extent_eq_some hextent).1) (by decide)
        rw [if_neg hin, ih hrest, decide_eq_false hin, decide_eq_false hnodisk]

/-- Without a size the first disk is taken as it is. -/
theorem bestMatchLoop_size_zero : bestMatchLoop offset 0 none devices = (devices.find? (·.IsDisk), offset) := by
  induction devices with
  | nil => rfl
  | cons part devices ih =>
    rw [List.find?_cons]
    by_cases hdisk : part.IsDisk
    · rw [decide_eq_true hdisk]
      have htype : part.devtype = some (cstr "disk") := hdisk
      simp [bestMatchLoop, htype]
    · rw [decide_eq_false hdisk, ← ih, bestMatchLoop]
      split
      · rfl
      · next devtype htype =>
        have hne : devtype ≠ cstr "disk" := fun h => hdisk (htype.trans (congrArg some h))
        simp [hne]

end

/-- **A region is translated without moving it**: to the first partition that
completely contains it, with the offset from that partition's start, or else to
the first disk as it is; a call fails only if there is neither. Without a size
the disk is taken. -/
theorem block_device_translated (devices : List UdevDevice) (cdev : Cdev)
    (h : cdev.size ≠ 0 → Addressable devices cdev) :
    Translated devices
      (if cdev.size = 0 then none else devices.find? (·.Contains cdev.offset.toNat cdev.size.toNat))
      cdev (cdevFromBlockDevice devices cdev).1 (cdevFromBlockDevice devices cdev).2 := by
  have hdisk : bestMatchLoop cdev.offset cdev.size none devices = (devices.find? (·.IsDisk), cdev.offset) →
      Translated devices none cdev (cdevFromBlockDevice devices cdev).1 (cdevFromBlockDevice devices cdev).2 := by
    intro hloop
    rw [cdevFromBlockDevice, hloop, Translated]
    cases devices.find? (·.IsDisk) with
    | none => exact ⟨show -ENODEV < 0 by decide, rfl⟩
    | some disk => exact ⟨rfl, rfl, rfl, rfl⟩
  by_cases hsize : cdev.size = 0
  · rw [if_pos hsize]
    exact hdisk (hsize ▸ bestMatchLoop_size_zero)
  · obtain ⟨h₀, h₁, hparts⟩ := h hsize
    have hloop : bestMatchLoop cdev.offset cdev.size none devices = _ := bestMatchLoop_eq hsize h₀ h₁ hparts
    rw [if_neg hsize]
    cases hfind : devices.find? (·.Contains cdev.offset.toNat cdev.size.toNat) with
    | none =>
      rw [hfind] at hloop
      exact hdisk hloop
    | some part =>
      have hin : part.Contains cdev.offset.toNat cdev.size.toNat := by simpa using List.find?_some hfind
      obtain ⟨⟨start, length⟩, hextent, hstart, hend⟩ := hin
      simp only [hfind, Option.mem_def.1 hextent] at hloop
      rw [cdevFromBlockDevice, hloop, Translated]
      refine ⟨rfl, rfl, rfl, start, length, hextent, ?_⟩
      simp only [Option.map_some, Option.getD_some] at hstart hend ⊢
      omega

/-- A disk with a partition of 64 sectors from sector 256 on. -/
def loopDevices : List UdevDevice :=
  [⟨some (cstr "disk"), cstr "/dev/loop0", fun _ => none, fun _ => some (cstr "gpt")⟩,
    ⟨some (cstr "partition"), cstr "/dev/loop0p2",
      fun attr => some (cstr (if attr = cstr "start" then "256" else "64")), fun _ => some (cstr "gpt")⟩]

theorem block_device_translated_loop :
    Translated loopDevices (loopDevices.find? (·.Contains 0x20000 0x2000)) ⟨none, 0x20000, 0x2000, false, false⟩
      (cdevFromBlockDevice loopDevices ⟨none, 0x20000, 0x2000, false, false⟩).1
      (cdevFromBlockDevice loopDevices ⟨none, 0x20000, 0x2000, false, false⟩).2 := by
  have hdisk : loopDevices[0].extent = none := by decide +kernel
  have hpart : loopDevices[1].extent = some (0x20000, 0x8000) := by decide +kernel
  refine block_device_translated loopDevices ⟨none, 0x20000, 0x2000, false, false⟩ fun _ =>
    ⟨by decide, by decide, fun dev hdev start length h => ?_⟩
  rcases List.mem_pair.1 hdev with rfl | rfl
  · cases hdisk.symm.trans h
  · cases hpart.symm.trans h
    decide

example : (cdevFromBlockDevice loopDevices ⟨none, 0x20000, 0x2000, false, false⟩).1.offset = 0 := by decide +kernel

end DtUtils
