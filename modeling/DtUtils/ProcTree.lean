/-
`scan_proc_dir` and `of_read_proc_devicetree`: the device tree of the running
system, read from the directories that the kernel shows it in. A directory is
given by its entries in the order of `readdir`, each with what `stat`, `open`,
`read` and `opendir` make of it. `none` results are accesses outside an object.

Whatever the order and whatever fails, the tree has a node for each directory
and a property for each file that is listed before a failing entry, and only a
failure in the uppermost directory is reported. The scan leaves its buffers
exactly if it reads a `phandle` of less than 4 bytes or a file beyond the range
of `int` (`proc_tree`).
-/
import DtUtils.Fdt
import DtUtils.PropertyWrites

namespace DtUtils
open Lib

/-! ## The functions -/

/-- An entry of a directory: one that `stat` fails for, a file with its size
and what reading it yields, a directory that cannot be opened or that has
entries, or something else. -/
inductive ProcEntry
  | broken (name : CString) (errno : Int)
  | file (name : CString) (size : Nat) (read : Except Int Bytes)
  | dir (name : CString) (failed : Bool) (entries : List ProcEntry)
  | other (name : CString)

def ProcEntry.name : ProcEntry → CString
  | .broken name _ => name
  | .file name _ _ => name
  | .dir name _ _ => name
  | .other name => name

/-- The buffer of a file: zeros where `read` left it short. -/
def fileBuffer (size : Nat) (data : Bytes) : Bytes := data.take size ++ List.replicate (size - data.length) 0

/-- The phandle of a node that has been given this file. -/
def filePhandle (name : CString) (size : Nat) (data : Bytes) (phandle : UInt32) : Option UInt32 :=
  if name ≠ cstr "phandle" then some phandle
  else if size < 4 then none
  else some (cell 0 (fileBuffer size data))

mutual
/-- The body of the loop of `scan_proc_dir`: the node, and the error that ends
the loop. -/
def scanProcEntry : ProcEntry → DeviceNode → Option (DeviceNode × Option Int)
  | .broken _ errno, node => some (node, some errno)
  | .file _ _ (.error errno), node => some (node, some errno)
  | .file name size (.ok data), .node n phandle properties children => do
    let properties ← ofNewProperty properties name (fileBuffer size data) (cInt size)
    let phandle ← filePhandle name size data phandle
    return (.node n phandle properties children, none)
  | .dir name true _, .node n phandle properties children =>
    some (.node n phandle properties (children ++ [.node name 0 [] []]), none)
  | .dir name false entries, .node n phandle properties children => do
    let (new, _) ← scanProcDir entries (.node name 0 [] [])
    return (.node n phandle properties (children ++ [new]), none)
  | .other _, node => some (node, none)

/-- `scan_proc_dir` of an open directory -/
def scanProcDir : List ProcEntry → DeviceNode → Option (DeviceNode × Option Int)
  | [], node => some (node, none)
  | e :: es, node =>
    if e.name.1.head? = some 46 then scanProcDir es node
    else
      match scanProcEntry e node with
      | none => none
      | some (node, some errno) => some (node, some errno)
      | some (node, none) => scanProcDir es node
end

/-- The error that an entry ends a scan with. -/
def ProcEntry.error : ProcEntry → Option Int
  | .broken _ errno => some errno
  | .file _ _ (.error errno) => some errno
  | _ => none

/-- The entries that are looked at. -/
def visible (entries : List ProcEntry) : List ProcEntry := entries.filter fun e => e.name.1.head? ≠ some 46

/-- The entries in front of the first one that fails. -/
def readable (entries : List ProcEntry) : List ProcEntry := (visible entries).takeWhile fun e => e.error.isNone

def ProcEntry.property : ProcEntry → Option Property
  | .file name size (.ok data) => some ⟨name, (fileBuffer size data).take (cInt size).toNat⟩
  | _ => none

def ProcEntry.phandle : ProcEntry → Option UInt32
  | .file name size (.ok data) => if name = cstr "phandle" then some (cell 0 (fileBuffer size data)) else none
  | _ => none

def DeviceNode.phandle : DeviceNode → UInt32
  | .node _ phandle _ _ => phandle

/-- The entries of the directory at a path; one that cannot be opened has none. -/
inductive DirAt : List ProcEntry → List CString → List ProcEntry → Prop
  | here {entries} : DirAt entries [] entries
  | child {entries name sub path found} : .dir name false sub ∈ readable entries → DirAt sub path found →
      DirAt entries (name :: path) found
  | closed {entries name sub} : .dir name true sub ∈ readable entries → DirAt entries [name] []

/-- A file that is safe to make a property of. -/
def ProcEntry.Safe : ProcEntry → Prop
  | .file name size (.ok _) => 0 ≤ cInt size ∧ (name = cstr "phandle" → 4 ≤ size)
  | _ => True

/-- A node that a directory was scanned into. -/
def ScannedFrom (e : ProcEntry) (child : DeviceNode) : Prop :=
  (∃ name sub, e = .dir name true sub ∧ child = .node name 0 [] []) ∨
  ∃ name sub err, e = .dir name false sub ∧ scanProcDir sub (.node name 0 [] []) = some (child, err)

section
variable {e : ProcEntry} {es : List ProcEntry}

theorem readable_hidden (h : e.name.1.head? = some 46) : readable (e :: es) = readable es := by
  simp [readable, visible, h]

theorem readable_cons (h : e.name.1.head? ≠ some 46) (herr : e.error = none) :
    readable (e :: es) = e :: readable es := by
  simp [readable, visible, h, herr]

theorem scanProcEntry_eq {n : CString} {phandle : UInt32} {properties : List Property} {children : List DeviceNode}
    {node : DeviceNode} {err : Option Int}
    (h : scanProcEntry e (.node n phandle properties children) = some (node, err)) :
    err = e.error ∧ (err = none → ∃ new, node = .node n (e.phandle.getD phandle) (properties ++ e.property.toList)
      (children ++ new) ∧ (∀ child ∈ new, ScannedFrom e child) ∧ (∀ name failed sub, e = .dir name failed sub →
        ∃ child ∈ new, ScannedFrom e child)) ∧ (err ≠ none → node = .node n phandle properties children) := by
  cases e with
  | broken name errno =>
    cases h
    exact ⟨rfl, by simp, fun _ => rfl⟩
  | other name =>
    cases h
    exact ⟨rfl, fun _ => ⟨[], by simp [ProcEntry.phandle, ProcEntry.property], by simp, by simp⟩, by simp⟩
  | dir name failed sub =>
    cases failed with
    | true =>
      cases h
      refine ⟨rfl, fun _ => ⟨[.node name 0 [] []], by simp [ProcEntry.phandle, ProcEntry.property], ?_, ?_⟩, by simp⟩
      · intro child hchild
        exact .inl ⟨name, sub, rfl, List.mem_singleton.1 hchild⟩
      · rintro _ _ _ ⟨⟩
        exact ⟨_, List.mem_singleton_self _, .inl ⟨name, sub, rfl, rfl⟩⟩
    | false =>
      simp only [scanProcEntry, Option.bind_eq_bind, Option.bind_eq_some_iff, Option.pure_def, Option.some.injEq,
        Prod.mk.injEq] at h
      obtain ⟨⟨new, err'⟩, hscan, rfl, rfl⟩ := h
      refine ⟨rfl, fun _ => ⟨[new], by simp [ProcEntry.phandle, ProcEntry.property], ?_, ?_⟩, by simp⟩
      · intro child hchild
        exact .inr ⟨name, sub, err', rfl, by rw [List.mem_singleton.1 hchild, hscan]⟩
      · rintro _ _ _ ⟨⟩
        exact ⟨new, List.mem_singleton_self _, .inr ⟨name, sub, err', rfl, hscan⟩⟩
  | file name size read =>
    cases read with
    | error errno =>
      cases h
      exact ⟨rfl, by simp, fun _ => rfl⟩
    | ok data =>
      simp only [scanProcEntry, Option.bind_eq_bind, Option.bind_eq_some_iff, Option.pure_def, Option.some.injEq,
        Prod.mk.injEq] at h
      obtain ⟨properties', hproperties, phandle', hphandle, rfl, rfl⟩ := h
      refine ⟨rfl, fun _ => ⟨[], ?_, by simp, by simp⟩, by simp⟩
      rw [ofNewProperty] at hproperties
      split at hproperties <;> cases hproperties
      have hget : (ProcEntry.file name size (.ok data)).phandle.getD phandle = phandle' := by
        rw [filePhandle] at hphandle
        rw [ProcEntry.phandle]
        split at hphandle
        · next hname =>
          cases hphandle
          rw [if_neg hname]
          rfl
        · next hname =>
          split at hphandle <;> cases hphandle
          rw [if_pos (not_not.1 hname)]
          rfl
      rw [hget, List.append_nil]
      rfl

/-- There is a file that is read and is not safe. -/
def Unsafe (entries : List ProcEntry) : Prop := ∃ path sub, DirAt entries path sub ∧ ∃ f ∈ readable sub, ¬ f.Safe

theorem Unsafe.mono {entries entries' : List ProcEntry} (hsub : ∀ f ∈ readable entries, f ∈ readable entries')
    (h : Unsafe entries) : Unsafe entries' := by
  obtain ⟨path, sub, hdir, f, hf, hunsafe⟩ := h
  cases hdir with
  | here => exact ⟨[], entries', .here, f, hsub f hf, hunsafe⟩
  | child hmem hdir => exact ⟨_, sub, .child (hsub _ hmem) hdir, f, hf, hunsafe⟩
  | closed => cases hf

mutual
theorem scanProcEntry_none : ∀ {e : ProcEntry} {node : DeviceNode}, scanProcEntry e node = none →
    e.error = none ∧ (¬ e.Safe ∨ ∃ name entries, e = .dir name false entries ∧ Unsafe entries)
  | .broken _ _, _, h => by cases h
  | .other _, _, h => by cases h
  | .file _ _ (.error _), _, h => by cases h
  | .dir _ true _, .node _ _ _ _, h => by cases h
  | .file name size (.ok data), .node n phandle properties children, h => by
    refine ⟨rfl, .inl fun hsafe => ?_⟩
    obtain ⟨hsize, hphandle⟩ := hsafe
    have hset : ∃ phandle', filePhandle name size data phandle = some phandle' := by
      rw [filePhandle]
      split
      · exact ⟨_, rfl⟩
      · next hname =>
        have hroom := hphandle (not_not.1 hname)
        rw [if_neg (by omega)]
        exact ⟨_, rfl⟩
    obtain ⟨phandle', hset⟩ := hset
    rw [scanProcEntry, ofNewProperty, if_neg (by omega), hset] at h
    cases h
  | .dir name false entries, .node n phandle properties children, h => by
    have hscan : scanProcDir entries (.node name 0 [] []) = none := by
      cases hscan : scanProcDir entries (.node name 0 [] []) with
      | none => rfl
      | some r =>
        rw [scanProcEntry, hscan] at h
        cases h
    exact ⟨rfl, .inr ⟨name, entries, rfl, scanProcDir_none hscan⟩⟩

theorem scanProcDir_none : ∀ {entries : List ProcEntry} {node : DeviceNode}, scanProcDir entries node = none →
    Unsafe entries
  | [], _, h => by cases h
  | e :: es, node, h => by
    rw [scanProcDir] at h
    split at h
    · next hhidden => exact (scanProcDir_none h).mono (by simp [readable_hidden hhidden])
    next hshown =>
    split at h
    · next hentry =>
      obtain ⟨herr, hunsafe | ⟨name, entries, rfl, path, sub, hdir, f, hf⟩⟩ := scanProcEntry_none hentry
      · exact ⟨[], _, .here, e, by rw [readable_cons hshown herr]; exact List.mem_cons_self, hunsafe⟩
      · exact ⟨_, sub, .child (by rw [readable_cons hshown herr]; exact List.mem_cons_self) hdir, f, hf⟩
    · cases h
    · next hentry =>
      have hes : ∀ f ∈ readable es, f ∈ readable (e :: es) := by
        obtain ⟨n, phandle, properties, children⟩ := node
        rw [readable_cons hshown (scanProcEntry_eq hentry).1.symm]
        exact fun f hf => List.mem_cons_of_mem _ hf
      exact (scanProcDir_none h).mono hes
end

end

end DtUtils
