/-
`of_cdev_find` of `libdt.c` and `cdev_find_child_by_gpt_typeuuid`: the device
file of a state's backend and the region in it, from the device tree and from
what udev lists. udev's database is a parameter, which stays as it is while the
process runs; a block or mtd device has a device file. `none` results are
accesses outside an object.

A region that the tree describes by its `reg` is found where it lies
(`ofCdevFind_liesAt`), so that the buckets of states with different regions
of a device never share a byte of it (`states_apart`).
-/
import DtUtils.BlockDevice
import DtUtils.BucketsInit
import DtUtils.TreeIteration

namespace DtUtils
open Lib

/-! ## udev -/

/-- A device in udev's database. -/
structure UdevEntry extends UdevDevice where
  subsystem : CString
  sysname : CString
  syspath : CString
  /-- There is a file `eeprom` below its `syspath`. -/
  eeprom : Bool

/-- The devices in the order in which they are enumerated, and which of their
`syspath`s lie at or below another one. -/
structure Udev where
  entries : List UdevEntry
  below : CString → CString → Bool

/-- `udev_enumerate_scan_devices` with a parent or without, and with some
subsystems or, without any, with all. -/
def Udev.enumerate (u : Udev) (parent : Option UdevEntry) (subsystems : List CString) : List UdevEntry :=
  u.entries.filter fun dev =>
    (parent.all fun parent => u.below parent.syspath dev.syspath) && (subsystems.isEmpty || dev.subsystem ∈ subsystems)

/-- `udev_device_get_of_path`; `loopback` is `CONFIG_TEST_LOOPBACK`. -/
def udevDeviceGetOfPath (loopback : Bool) (dev : UdevEntry) : Option CString :=
  match dev.property (cstr "OF_FULLNAME") with
  | some ofPath => some ofPath
  | none =>
    if loopback ∧ dev.subsystem = cstr "block" ∧ dev.sysname.1.take 4 = (cstr "loop").1 then some dev.sysname else none

/-- `of_scan_udev_devices` -/
def ofScanUdevDevices (loopback : Bool) (u : Udev) : List (CString × UdevEntry) :=
  let subsystems := ["platform", "i2c", "spi", "mtd", "amba"].map cstr ++ if loopback then [cstr "block"] else []
  (u.enumerate none subsystems).filterMap fun dev => (udevDeviceGetOfPath loopback dev).map fun ofPath => (ofPath, dev)

/-- `of_find_device_by_node_path` -/
def ofFindDeviceByNodePath (loopback : Bool) (u : Udev) (ofFullPath : CString) : Option UdevEntry :=
  ((ofScanUdevDevices loopback u).find? (·.1 = ofFullPath)).map Prod.snd

/-- `of_find_device_by_node` -/
def ofFindDeviceByNode (loopback : Bool) (u : Udev) (np : TreeNode) : Option UdevEntry :=
  match ofFindDeviceByNodePath loopback u np.fullName with
  | some dev => some dev
  | none =>
    match ofPropertyReadString np.device (cstr "barebox,filename") with
    | .error _ => none
    | .ok filename =>
      if loopback ∧ filename.1.take 5 = (cstr "/dev/").1 then
        ((ofScanUdevDevices loopback u).find? (·.1.1 = filename.1.drop 5)).map Prod.snd
      else none

/-- `device_find_mtd_partition` -/
def deviceFindMtdPartition (u : Udev) (dev : UdevEntry) (name : CString) : Option UdevEntry :=
  (u.enumerate (some dev) []).find? fun part => part.sysattr (cstr "name") = some name

/-- `udev_parse_mtd`: the device file and the size. -/
def udevParseMtd (dev : UdevEntry) : Except Int (CString × UInt64) :=
  if dev.devtype ≠ some (cstr "mtd") then .error (-EINVAL)
  else (udevDeviceParseSysattrU64 dev.toUdevDevice (cstr "size")).map fun size => (dev.devnode, size)

/-- `udev_parse_eeprom` of a device that has one. -/
def udevParseEeprom (dev : UdevEntry) : CString := dev.syspath.append (cstr "/eeprom")

/-- `of_find_mtd_device` -/
def ofFindMtdDevice (u : Udev) (parent : UdevEntry) : Option UdevEntry := (u.enumerate (some parent) [cstr "mtd"]).head?

/-- The property that `of_find_device_by_uuid` compares. -/
def uuidProperty (typeUuid : Bool) (devtype : CString) : Option CString :=
  if typeUuid then some (cstr "ID_PART_ENTRY_TYPE")
  else if devtype = cstr "disk" then some (cstr "ID_PART_TABLE_UUID")
  else if devtype = cstr "partition" then some (cstr "ID_PART_ENTRY_UUID")
  else none

/-- `of_find_device_by_uuid` -/
def ofFindDeviceByUuid (u : Udev) (parent : Option UdevEntry) (uuid : CString) (typeUuid : Bool) : Option UdevEntry :=
  (u.enumerate parent [cstr "block"]).find? fun device =>
    match device.devtype.bind (uuidProperty typeUuid) with
    | none => false
    | some property => (device.property property).any fun devUuid => sameButCase devUuid uuid

/-! ## The region of a node -/

/-- The nodes above a node, from its parent on. `fuel` bounds their number. -/
def NodeTree.ancestors (t : NodeTree) : Nat → Nat → List DeviceNode
  | 0, _ => []
  | fuel + 1, np =>
    match (t.node np).parent with
    | none => []
    | some parent => (t.node parent).device :: t.ancestors fuel parent

/-- `cdev_from_block_device` -/
def cdevFromDisk (u : Udev) (dev : UdevEntry) (cdev : Cdev) : Except Int Cdev :=
  let (cdev, ret) := cdevFromBlockDevice ((u.enumerate (some dev) [cstr "block"]).map (·.toUdevDevice)) cdev
  if ret ≠ 0 then .error ret else .ok cdev

/-- `__of_cdev_find` of a node with a device of its own. -/
def cdevOfDevice (u : Udev) (dev : UdevEntry) : Except Int Cdev :=
  if dev.eeprom then .ok ⟨some (udevParseEeprom dev), 0, 0, false, false⟩
  else
    match udevParseMtd dev with
    | .ok (devpath, size) => .ok ⟨some devpath, 0, size, false, false⟩
    | .error _ =>
      match cdevFromDisk u dev ⟨none, 0, 0, false, false⟩ with
      | .ok cdev => .ok { cdev with isBlockDisk := true }
      | .error _ => .error (-ENODEV)

/-- `__of_cdev_find` of a partition that is given by its `partuuid`. -/
def cdevOfPartuuid (u : Udev) (uuid : CString) : Except Int Cdev :=
  match ofFindDeviceByUuid u none uuid false with
  | none => .error (-ENODEV)
  | some dev =>
    match udevDeviceParseSysattrU64 dev.toUdevDevice (cstr "size") with
    | .error _ => .error (-EINVAL)
    | .ok partsize => .ok ⟨some dev.devnode, 0, partsize * 512, false, false⟩

/-- The device of the node that holds the partitions. -/
def storageDevice (loopback : Bool) (u : Udev) (node : TreeNode) : Option (Except Int UdevEntry) := do
  if ← ofDeviceIsCompatible node.device (cstr "barebox,storage-by-uuid") then
    match ofPropertyReadString node.device (cstr "uuid") with
    | .error _ => return .error (-ENODEV)
    | .ok uuid => return (ofFindDeviceByUuid u none uuid false).elim (.error (-ENODEV)) .ok
  else return (ofFindDeviceByNode loopback u node).elim (.error (-ENODEV)) .ok

/-- `__of_cdev_find` of a partition of this device. -/
def cdevOfPartition (u : Udev) (node : DeviceNode) (ancestors : List DeviceNode) (dev : UdevEntry) :
    Option (Except Int Cdev) :=
  match ofFindMtdDevice u dev with
  | some _ =>
    match ofPropertyReadString node (cstr "label") with
    | .error e => some (.error e)
    | .ok partname =>
      match deviceFindMtdPartition u dev partname with
      | none => some (.error (-ENODEV))
      | some partdev => some ((udevParseMtd partdev).map fun (devpath, size) => ⟨some devpath, 0, size, false, false⟩)
  | none =>
    match ofParsePartition node ancestors with
    | none => none
    | some (.error e) => some (.error e)
    | some (.ok (offset, size)) =>
      if dev.eeprom then some (.ok ⟨some (udevParseEeprom dev), offset, .ofNat size, false, false⟩)
      else some (cdevFromDisk u dev ⟨none, offset, .ofNat size, false, false⟩)

/-- The partitions of a flash may have a node of their own below that of the
flash. -/
def flashNode (t : NodeTree) (node : Nat) : Option Nat :=
  if (t.node node).name = cstr "partitions" then (t.node node).parent else some node

/-- `of_cdev_find` -/
def ofCdevFind (loopback : Bool) (u : Udev) (t : NodeTree) (partitionNode : Nat) : Option (Except Int Cdev) :=
  let np := t.node partitionNode
  match ofFindDeviceByNode loopback u np with
  | some dev => some (cdevOfDevice u dev)
  | none => do
    let parent ← np.parent
    let partuuid :=
      if ← ofDeviceIsCompatible (t.node parent).device (cstr "fixed-partitions") then
        (ofPropertyReadString np.device (cstr "partuuid")).toOption
      else none
    match partuuid with
    | some uuid => return cdevOfPartuuid u uuid
    | none =>
      let node ← flashNode t parent
      match ← storageDevice loopback u (t.node node) with
      | .error e => return .error e
      | .ok dev => cdevOfPartition u np.device (t.ancestors t.live.length partitionNode) dev

/-- `cdev_find_child_by_gpt_typeuuid`, where `devices` finds the device of a
device file. -/
def cdevFindChildByGptTypeuuid (u : Udev) (devices : CString → Option UdevEntry) (cdev : Cdev) (typeuuid : CString) :
    Except Int Cdev :=
  if cdev.isGptPartitioned = false then .error (-EINVAL)
  else
    match cdev.devpath.bind devices with
    | none => .error (-ENOENT)
    | some parent =>
      match ofFindDeviceByUuid u (some parent) typeuuid true with
      | none => .error (-ENOENT)
      | some child =>
        match udevDeviceParseSysattrU64 child.toUdevDevice (cstr "size") with
        | .error _ => .error (-ENOENT)
        | .ok size => .ok ⟨some child.devnode, 0, size * 512, false, false⟩

/-- `BAREBOX_STATE_PARTITION_GUID` -/
def bareboxStatePartitionGuid : CString := cstr "4778ed65-bf42-45fa-9c5b-287a1dc4aab1"

/-- The part of `state_new_from_node` that resolves the backend. -/
def stateBackend (loopback : Bool) (u : Udev) (devices : CString → Option UdevEntry) (t : NodeTree)
    (partitionNode : Nat) : Option (Except Int Cdev) := do
  match ← ofCdevFind loopback u t partitionNode with
  | .error e => return .error e
  | .ok cdev =>
    if cdev.isBlockDisk then
      return (cdevFindChildByGptTypeuuid u devices cdev bareboxStatePartitionGuid).mapError fun _ => -EINVAL
    else return .ok cdev

/-! ## Where a region lies -/

/-- The byte of the disk that a device file begins at. -/
def UdevDevice.base (dev : UdevDevice) : Nat := (dev.extent.map Prod.fst).getD 0

theorem UdevDevice.IsDisk.base {dev : UdevDevice} (h : dev.IsDisk) : dev.base = 0 := by
  have hne : ¬ dev.devtype = some (cstr "partition") := by
    rw [show dev.devtype = some (cstr "disk") from h]
    decide
  rw [UdevDevice.base, UdevDevice.extent, if_neg hne]
  rfl

/-- A device file that shows the device `dev` from one of its bytes on. -/
inductive FileOf (u : Udev) (dev : UdevEntry) : CString → Nat → Prop
  | eeprom : dev.eeprom = true → FileOf u dev (udevParseEeprom dev) 0
  | block {e : UdevEntry} : e ∈ u.enumerate (some dev) [cstr "block"] → FileOf u dev e.devnode e.base

/-- The region from byte `offset` of `dev` on. -/
structure LiesAt (u : Udev) (dev : UdevEntry) (offset size : Nat) (cdev : Cdev) (path : CString) (base : Nat) : Prop where
  devpath : cdev.devpath = some path
  file : FileOf u dev path base
  nonneg : 0 ≤ cdev.offset
  offset : base + cdev.offset = offset
  size : cdev.size.toNat = size

theorem cdevFromBlockDevice_liesAt {devices : List UdevDevice} {cdev cdev' : Cdev} (hsize : cdev.size ≠ 0)
    (h : Addressable devices cdev) (hcdev : cdevFromBlockDevice devices cdev = (cdev', 0)) :
    ∃ dev ∈ devices, cdev'.devpath = some dev.devnode ∧ dev.base + cdev'.offset = cdev.offset ∧ 0 ≤ cdev'.offset ∧
      cdev'.size = cdev.size := by
  obtain ⟨h₀, h₁, hparts⟩ := h
  have hloop := @bestMatchLoop_eq cdev.offset cdev.size none devices hsize h₀ h₁ hparts
  cases hfind : devices.find? (·.Contains cdev.offset.toNat cdev.size.toNat) with
  | some part =>
    have hin : part.Contains cdev.offset.toNat cdev.size.toNat := by simpa using List.find?_some hfind
    obtain ⟨⟨start, length⟩, hextent, hstart, hend⟩ := hin
    have hbase : part.base = start := by rw [UdevDevice.base, Option.mem_def.1 hextent]; rfl
    simp only [hfind, Option.mem_def.1 hextent] at hloop
    rw [cdevFromBlockDevice, hloop] at hcdev
    cases hcdev
    refine ⟨part, List.mem_of_find?_eq_some hfind, rfl, ?_, ?_, rfl⟩
    · simp only [hbase, Option.map_some, Option.getD_some]
      omega
    · simp only [Option.map_some, Option.getD_some] at hstart ⊢
      omega
  | none =>
    simp only [hfind, Option.none_or] at hloop
    cases hdisk : devices.find? (·.IsDisk) with
    | none =>
      rw [cdevFromBlockDevice, hloop, hdisk] at hcdev
      obtain ⟨-, hret⟩ := Prod.mk.inj hcdev
      exact absurd hret (by decide)
    | some disk =>
      rw [cdevFromBlockDevice, hloop, hdisk] at hcdev
      cases hcdev
      have hbase : disk.base = 0 := UdevDevice.IsDisk.base (by simpa using List.find?_some hdisk)
      refine ⟨disk, List.mem_of_find?_eq_some hdisk, rfl, ?_, h₀, rfl⟩
      rw [hbase]
      exact zero_add _

section
variable {loopback : Bool} {u : Udev} {t : NodeTree} {np : Nat} {dev : UdevEntry}

/-- The node is a partition of `dev` that is told by its `reg`. -/
structure OnDevice (loopback : Bool) (u : Udev) (t : NodeTree) (np : Nat) (dev : UdevEntry) : Prop where
  own : ofFindDeviceByNode loopback u (t.node np) = none
  parent : ∃ parent node fixed, (t.node np).parent = some parent ∧
    ofDeviceIsCompatible (t.node parent).device (cstr "fixed-partitions") = some fixed ∧
    (fixed = true → ∃ e, ofPropertyReadString (t.node np).device (cstr "partuuid") = .error e) ∧
    flashNode t parent = some node ∧ storageDevice loopback u (t.node node) = some (.ok dev)
  noMtd : ofFindMtdDevice u dev = none

theorem OnDevice.find (h : OnDevice loopback u t np dev) :
    ofCdevFind loopback u t np = cdevOfPartition u (t.node np).device (t.ancestors t.live.length np) dev := by
  obtain ⟨parent, node, fixed, hparent, hfixed, huuid, hnode, hdev⟩ := h.parent
  have hnone : (if fixed then (ofPropertyReadString (t.node np).device (cstr "partuuid")).toOption else none) = none := by
    cases fixed with
    | false => rfl
    | true =>
      obtain ⟨e, he⟩ := huuid rfl
      rw [he]
      rfl
  simp only [ofCdevFind, h.own, hparent, hfixed, hnone, hnode, hdev, Option.bind_eq_bind, Option.bind_some]

theorem cdevFromBlockDevice_isBlockDisk (devices : List UdevDevice) (cdev : Cdev) :
    (cdevFromBlockDevice devices cdev).1.isBlockDisk = cdev.isBlockDisk := by
  rw [cdevFromBlockDevice]
  rcases bestMatchLoop cdev.offset cdev.size none devices with ⟨_ | bestMatch, offset⟩ <;> rfl

theorem cdevFromDisk_isBlockDisk {cdev cdev' : Cdev} (h : cdevFromDisk u dev cdev = .ok cdev') :
    cdev'.isBlockDisk = cdev.isBlockDisk := by
  simp only [cdevFromDisk] at h
  split at h
  · cases h
  · cases h
    exact cdevFromBlockDevice_isBlockDisk _ cdev

/-- Only a whole device counts as a block disk. -/
theorem cdevOfPartition_isBlockDisk {node : DeviceNode} {ancestors : List DeviceNode} {cdev : Cdev}
    (h : cdevOfPartition u node ancestors dev = some (.ok cdev)) : cdev.isBlockDisk = false := by
  rw [cdevOfPartition] at h
  split at h
  · split at h
    · cases h
    · split at h
      · cases h
      · next partdev _ =>
        cases hmtd : udevParseMtd partdev with
        | error e =>
          rw [hmtd] at h
          cases h
        | ok found =>
          rw [hmtd] at h
          cases h
          rfl
  · split at h
    · cases h
    · cases h
    · split at h
      · cases h
        rfl
      · exact cdevFromDisk_isBlockDisk (Option.some.inj h)

/-- A partition that the tree describes is the state's backend as it is found. -/
theorem OnDevice.stateBackend {devices : CString → Option UdevEntry} {cdev : Cdev} (h : OnDevice loopback u t np dev)
    (hcdev : stateBackend loopback u devices t np = some (.ok cdev)) : ofCdevFind loopback u t np = some (.ok cdev) := by
  simp only [DtUtils.stateBackend] at hcdev
  rcases hfind : ofCdevFind loopback u t np with _ | _ | found
  · rw [hfind] at hcdev
    cases hcdev
  · rw [hfind] at hcdev
    cases hcdev
  · have hdisk := cdevOfPartition_isBlockDisk (h.find ▸ hfind)
    simp only [hfind, Option.bind_eq_bind, Option.bind_some, hdisk] at hcdev
    exact hcdev

/-- The numbers of the node's `reg`, which an `off_t` can address. -/
def Describes (t : NodeTree) (np offset size : Nat) : Prop :=
  ∃ reg a s, Encodes (t.node np).device (t.ancestors t.live.length np) reg a s offset size ∧ a < 2 ^ 31 ∧ s < 2 ^ 31 ∧
    size ≠ 0 ∧ offset + size < 2 ^ 63

/-- The partitions of the device end where an `off_t` can. -/
def PartitionsAddressable (u : Udev) (dev : UdevEntry) : Prop :=
  ∀ e ∈ u.enumerate (some dev) [cstr "block"], ∀ start length, e.extent = some (start, length) → start + length < 2 ^ 63

/-- **A region is found where the device tree says it lies.** -/
theorem ofCdevFind_liesAt {offset size : Nat} {cdev : Cdev} (h : OnDevice loopback u t np dev)
    (hreg : Describes t np offset size) (hparts : PartitionsAddressable u dev)
    (hcdev : ofCdevFind loopback u t np = some (.ok cdev)) : ∃ path base, LiesAt u dev offset size cdev path base := by
  obtain ⟨reg, a, s, hencodes, ha, hs, hsize, hend⟩ := hreg
  have hparsed := hencodes.parsed ha hs (by omega) (by omega)
  have hsize64 : (UInt64.ofNat size).toNat = size := by
    rw [UInt64.toNat_ofNat']
    omega
  have hne : UInt64.ofNat size ≠ 0 := by
    intro h0
    rw [h0] at hsize64
    exact hsize hsize64.symm
  rw [h.find] at hcdev
  simp only [cdevOfPartition, h.noMtd, hparsed] at hcdev
  split at hcdev
  · next heeprom =>
    cases hcdev
    exact ⟨_, 0, rfl, .eeprom heeprom, by simp, by simp, hsize64⟩
  · simp only [cdevFromDisk, Option.some.injEq] at hcdev
    rcases hdisk : cdevFromBlockDevice ((u.enumerate (some dev) [cstr "block"]).map (·.toUdevDevice))
      ⟨none, offset, .ofNat size, false, false⟩ with ⟨found, ret⟩
    rw [hdisk] at hcdev
    split at hcdev
    · cases hcdev
    · next hret =>
      cases hcdev
      obtain rfl : ret = 0 := by simpa using hret
      have haddressable : Addressable ((u.enumerate (some dev) [cstr "block"]).map (·.toUdevDevice))
          ⟨none, offset, .ofNat size, false, false⟩ := by
        refine ⟨by simp, by simp only [hsize64]; omega, fun e he start length hextent => ?_⟩
        obtain ⟨entry, hentry, rfl⟩ := List.mem_map.1 he
        exact hparts entry hentry start length hextent
      obtain ⟨e, he, hpath, hoffset, hnonneg, hkept⟩ := cdevFromBlockDevice_liesAt hne haddressable hdisk
      obtain ⟨entry, hentry, rfl⟩ := List.mem_map.1 he
      exact ⟨_, _, hpath, .block hentry, hnonneg, hoffset, by rw [hkept]; exact hsize64⟩

end

/-! ## The buckets of a region -/

theorem fileBuckets_inside {offset maxSize : Nat} {stridesize : UInt32} {create : Nat → Int} {buckets : List FileBucket}
    (hwrap : 3 * stridesize.toNat < 2 ^ 32) (hmax : maxSize ≠ 0)
    (h : stateStorageFileBucketsInit offset maxSize stridesize create = some (buckets, 0)) :
    ∀ b ∈ buckets, offset ≤ b.offset ∧ b.offset + stridesize.toNat ≤ offset + maxSize := by
  have hstride (n : Nat) (hn : n ≤ 3) : strideOffset stridesize n = n * stridesize.toNat := by
    rw [strideOffset_eq stridesize (by omega), Nat.mod_eq_of_lt]
    exact lt_of_le_of_lt (Nat.mul_le_mul_right _ hn) hwrap
  rw [stateStorageFileBucketsInit] at h
  split at h
  · cases h
  split at h
  · cases h
  next hroom =>
  rw [hstride _ (by decide), desiredBuckets] at hroom
  rcases @fileBucketsLoop_eq offset stridesize create (List.range desiredBuckets) 0 with
    ⟨bs, hbs, -, hoffs⟩ | ⟨hnone, -⟩
  · rw [hbs] at h
    simp only [Option.bind_eq_bind, Option.bind_some] at h
    split at h <;> cases h
    intro b hb
    have hoff := List.mem_map_of_mem (f := FileBucket.offset) hb
    rw [hoffs] at hoff
    obtain ⟨n, hn, hbn⟩ := List.mem_map.1 hoff
    have hn3 : n < 3 := List.mem_range.1 (List.mem_of_mem_filter hn)
    rw [hstride n hn3.le] at hbn
    have hle : (n + 1) * stridesize.toNat ≤ 3 * stridesize.toNat := Nat.mul_le_mul_right _ hn3
    rw [Nat.succ_mul] at hle
    omega
  · rw [hnone] at h
    cases h

/-- **States in different regions of a device never share a byte**: whatever
partitions udev knows of, the copies that the one writes and those of the other
lie apart on the device. -/
theorem states_apart {loopback : Bool} {u : Udev} {devices : CString → Option UdevEntry} {t : NodeTree} {a b : Nat}
    {dev : UdevEntry} (ha : OnDevice loopback u t a dev) (hb : OnDevice loopback u t b dev) (hparts : PartitionsAddressable u dev)
    {offset size offset' size' : Nat} (hreg : Describes t a offset size) (hreg' : Describes t b offset' size')
    (hapart : offset + size ≤ offset' ∨ offset' + size' ≤ offset) {cdev cdev' : Cdev}
    (hcdev : stateBackend loopback u devices t a = some (.ok cdev))
    (hcdev' : stateBackend loopback u devices t b = some (.ok cdev')) :
    ∃ path base path' base', LiesAt u dev offset size cdev path base ∧ LiesAt u dev offset' size' cdev' path' base' ∧
      ∀ (stride stride' : UInt32) (create create' : Nat → Int) (buckets buckets' : List FileBucket),
        3 * stride.toNat < 2 ^ 32 → 3 * stride'.toNat < 2 ^ 32 →
        stateStorageFileBucketsInit cdev.offset.toNat cdev.size.toNat stride create = some (buckets, 0) →
        stateStorageFileBucketsInit cdev'.offset.toNat cdev'.size.toNat stride' create' = some (buckets', 0) →
        ∀ x ∈ buckets, ∀ y ∈ buckets', base + x.offset + stride.toNat ≤ base' + y.offset ∨
          base' + y.offset + stride'.toNat ≤ base + x.offset := by
  obtain ⟨path, base, hplace⟩ := ofCdevFind_liesAt ha hreg hparts (ha.stateBackend hcdev)
  obtain ⟨path', base', hplace'⟩ := ofCdevFind_liesAt hb hreg' hparts (hb.stateBackend hcdev')
  refine ⟨path, base, path', base', hplace, hplace', ?_⟩
  intro stride stride' create create' buckets buckets' hwrap hwrap' hinit hinit' x hx y hy
  obtain ⟨-, -, -, -, -, -, hsize, -⟩ := hreg
  obtain ⟨-, -, -, -, -, -, hsize', -⟩ := hreg'
  obtain ⟨hx₀, hx₁⟩ := fileBuckets_inside hwrap (by rw [hplace.size]; exact hsize) hinit x hx
  obtain ⟨hy₀, hy₁⟩ := fileBuckets_inside hwrap' (by rw [hplace'.size]; exact hsize') hinit' y hy
  have hoffset := hplace.offset
  have hoffset' := hplace'.offset
  have hnonneg := hplace.nonneg
  have hnonneg' := hplace'.nonneg
  rw [hplace.size] at hx₁
  rw [hplace'.size] at hy₁
  omega

/-- An SD card with a partition of 64 sectors from sector 256 on. -/
def mmcUdev : Udev where
  entries :=
    [⟨⟨none, .empty, fun _ => none, fun p => if p = cstr "OF_FULLNAME" then some (cstr "/mmc") else none⟩,
        cstr "platform", cstr "mmc", cstr "/sys/mmc", false⟩,
      ⟨⟨some (cstr "disk"), cstr "/dev/mmcblk0", fun _ => none, fun _ => none⟩,
        cstr "block", cstr "mmcblk0", cstr "/sys/mmc/mmcblk0", false⟩,
      ⟨⟨some (cstr "partition"), cstr "/dev/mmcblk0p1",
          fun attr => some (cstr (if attr = cstr "start" then "256" else "64")), fun _ => none⟩,
        cstr "block", cstr "mmcblk0p1", cstr "/sys/mmc/mmcblk0/mmcblk0p1", false⟩]
  below parent path := parent.1.isPrefixOf path.1

/-- Its node, with those of two regions that lie in this partition. -/
def mmcTree : NodeTree :=
  let region (offset : Nat) (n : TreeNode) : TreeNode :=
    { n with properties := [⟨cstr "reg", beBytes 4 offset ++ beBytes 4 0x1000⟩] }
  ((ofNewNode (ofNewNode (ofNewNode (.fresh 0) 1 (some 0) (cstr "mmc")) 2 (some 1) (cstr "a")) 3 (some 1)
    (cstr "b")).modify 2 (region 0x20000)).modify 3 (region 0x21000)

theorem mmcTree_describes {np offset : Nat} {value : Bytes}
    (hreg : ofFindProperty (mmcTree.node np).device (cstr "reg") = some ⟨cstr "reg", value⟩) (hlen : value.length = 8)
    (hoffset : beNat (slice 0 4 value) = offset) (hsize : beNat (slice 4 4 value) = 0x1000)
    (hcells : ∀ propname ∈ [cstr "#address-cells", cstr "#size-cells"],
      (cellsNodes (mmcTree.node np).device (mmcTree.ancestors mmcTree.live.length np)).findSome?
        (fun np => ofFindProperty np propname) = none) : Describes mmcTree np offset 0x1000 := by
  have hcount (propname : CString) (h : propname ∈ [cstr "#address-cells", cstr "#size-cells"]) :
      CellCount propname (mmcTree.node np).device (mmcTree.ancestors mmcTree.live.length np) 1 := by
    rw [CellCount, hcells propname h]
  have hlt := beNat_lt (slice 0 4 value)
  have hslice : (slice 0 4 value).length = 4 := by
    rw [slice, List.length_take, List.length_drop]
    omega
  rw [hslice, hoffset] at hlt
  exact ⟨_, 1, 1, ⟨hreg, hcount _ (by simp), hcount _ (by simp), hlen.ge, hoffset.symm, hsize.symm⟩, by decide, by decide,
    by decide, by omega⟩

theorem mmcTree_onDevice {np : Nat} (hown : (ofFindDeviceByNode false mmcUdev (mmcTree.node np)).isNone = true)
    (hparent : (mmcTree.node np).parent = some 1) : OnDevice false mmcUdev mmcTree np mmcUdev.entries[0] where
  own := Option.isNone_iff_eq_none.1 hown
  parent := ⟨1, 1, false, hparent, by decide +kernel, by simp, by decide +kernel, rfl⟩
  noMtd := Option.isNone_iff_eq_none.1 (by decide +kernel)

theorem mmcUdev_addressable : PartitionsAddressable mmcUdev mmcUdev.entries[0] := by
  intro e he start length h
  have hall : ∀ e ∈ mmcUdev.enumerate (some mmcUdev.entries[0]) [cstr "block"],
      e.extent = none ∨ e.extent = some (0x20000, 0x8000) := by decide +kernel
  rcases hall e he with hnone | hsome
  · rw [hnone] at h
    cases h
  · rw [hsome] at h
    cases h
    decide

theorem states_apart_mmc : ∃ cdev cdev', stateBackend false mmcUdev (fun _ => none) mmcTree 2 = some (.ok cdev) ∧
    stateBackend false mmcUdev (fun _ => none) mmcTree 3 = some (.ok cdev') ∧ ∃ base base' : Nat, base + cdev.offset = (0x20000 : Nat) ∧
      base' + cdev'.offset = (0x21000 : Nat) := by
  have hfound (np : Nat) (h : (stateBackend false mmcUdev (fun _ => none) mmcTree np).any (·.isOk) = true) :
      ∃ cdev, stateBackend false mmcUdev (fun _ => none) mmcTree np = some (.ok cdev) := by
    rcases hr : stateBackend false mmcUdev (fun _ => none) mmcTree np with _ | _ | cdev
    · simp [hr] at h
    · simp [hr, Except.isOk, Except.toBool] at h
    · exact ⟨cdev, rfl⟩
  obtain ⟨cdev, hcdev⟩ := hfound 2 (by decide +kernel)
  obtain ⟨cdev', hcdev'⟩ := hfound 3 (by decide +kernel)
  have hreg : Describes mmcTree 2 0x20000 0x1000 :=
    @mmcTree_describes 2 0x20000 (beBytes 4 0x20000 ++ beBytes 4 0x1000) (by decide +kernel) (by decide)
      (by decide +kernel) (by decide +kernel) (by decide +kernel)
  have hreg' : Describes mmcTree 3 0x21000 0x1000 :=
    @mmcTree_describes 3 0x21000 (beBytes 4 0x21000 ++ beBytes 4 0x1000) (by decide +kernel) (by decide)
      (by decide +kernel) (by decide +kernel) (by decide +kernel)
  obtain ⟨path, base, path', base', hplace, hplace', -⟩ :=
    states_apart (mmcTree_onDevice (by decide +kernel) (by decide +kernel))
      (mmcTree_onDevice (by decide +kernel) (by decide +kernel)) mmcUdev_addressable hreg hreg'
      (.inl (by decide)) hcdev hcdev'
  exact ⟨cdev, cdev', hcdev, hcdev', base, base', hplace.offset, hplace'.offset⟩

end DtUtils
