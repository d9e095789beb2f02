/-
Whether a load in the dtb format imports what it selected. The storage takes
the first data that verify, but `unpack` imports the tree that the last call
of `verify` left in the format, whichever bucket it was parsed from
(`loaded_is_selected_iff`).
-/
import DtUtils.FailedLoad
import DtUtils.Unflatten

namespace DtUtils
open Lib

/-! ## The tree that is kept -/

/-- What `verify` leaves in the format once it parses what a bucket delivered:
the tree, if there is one. It does not parse a blob that is longer than what
was read. -/
def dtbParsed : Delivery → Option DtbFormat
  | none => none
  | some (buf, len) => do
    let dtbLen ← be32At buf 4
    if (len % 2 ^ 64).toNat < dtbLen then none else some (dtbTree buf)

/-- What the last blob that is parsed leaves. -/
def lastParsed (xs : List Delivery) : Option DtbFormat := (xs.filterMap dtbParsed).getLast?

theorem lastParsed_cons (x : Delivery) (xs : List Delivery) :
    lastParsed (x :: xs) = (lastParsed xs <|> dtbParsed x) := by
  rw [lastParsed, List.filterMap_cons]
  cases dtbParsed x with
  | none => cases h : (xs.filterMap dtbParsed).getLast? <;> simp [lastParsed, h]
  | some root =>
    rw [List.getLast?_cons]
    cases h : (xs.filterMap dtbParsed).getLast? <;> simp [lastParsed, h]

/-- One call of `verify`: the tree kept is the one before if nothing was
parsed. -/
theorem DtbVerified.kept {root root' : DtbFormat} {buf : Bytes} {len len' ret : Int}
    (h : DtbVerified root buf len root' ret len') :
    root' = (dtbParsed (some (buf, len))).getD root ∧ (ret = 0 → (dtbParsed (some (buf, len))).isSome) := by
  simp only [dtbParsed]
  cases h with
  | short hn hlt =>
    rw [hn, Option.bind_eq_bind, Option.bind_some, if_pos hlt]
    exact ⟨rfl, fun h => by cases h⟩
  | broken hn hle he hne =>
    rw [hn, Option.bind_eq_bind, Option.bind_some, if_neg (by omega), dtbTree, he]
    exact ⟨rfl, fun _ => rfl⟩
  | accepted hn hle ht =>
    rw [hn, Option.bind_eq_bind, Option.bind_some, if_neg (by omega), dtbTree, ht]
    exact ⟨rfl, fun _ => rfl⟩

/-- The format keeps what the last blob left. -/
theorem verifyAll_kept {f kept : DtbFormat} {xs : List Delivery} {selected : Option (Bytes × Int)}
    (h : verifyAll dtbVerify f xs = some (kept, selected)) :
    kept = (lastParsed xs).getD f ∧ (selected.isSome → (lastParsed xs).isSome) := by
  induction xs generalizing f kept selected with
  | nil =>
    cases h
    exact ⟨rfl, fun h => by cases h⟩
  | cons x xs ih =>
    rw [lastParsed_cons]
    cases x with
    | none =>
      obtain ⟨hkept, hsome⟩ := ih h
      cases hl : lastParsed xs <;> simp_all [dtbParsed]
    | some x =>
      obtain ⟨buf, len⟩ := x
      simp only [verifyAll, Option.bind_eq_bind, Option.bind_eq_some_iff] at h
      obtain ⟨⟨f₁, ret, len'⟩, hv, ⟨f₂, later⟩, hrest, h⟩ := h
      simp only [Option.pure_def, Option.some.injEq, Prod.mk.injEq] at h
      obtain ⟨rfl, rfl⟩ := h
      obtain ⟨hf₁, hret⟩ := (dtbVerify_cases hv).kept
      obtain ⟨hkept, hsome⟩ := ih hrest
      cases hl : lastParsed xs with
      | some root =>
        rw [hl] at hkept
        exact ⟨hkept, fun _ => rfl⟩
      | none =>
        rw [hl] at hkept hsome
        simp only [Option.getD_none] at hkept
        refine ⟨hkept.trans hf₁, fun hsel => ?_⟩
        by_cases h0 : ret = 0
        · exact hret h0
        · rw [if_neg h0] at hsel
          cases hsome hsel

/-! ## What is loaded -/

section
-- A node whose type is not that of its variable may be imported over a pointer;
-- whatever comes of it, the load does not depend on how a tree is imported.
variable (importer : StateData → DeviceNode → Option (List StateVariable × Int))

/-- The values that the import of this tree leaves, if it succeeds. -/
def importedValues (s : StateData) (tree : DeviceNode) : Option (List Bytes) :=
  match importer s tree with
  | some (vars, 0) => some (values vars)
  | _ => none

/-- A load that returns 0 leaves the values stored in the data that
`state_storage_read` selected: those of the first bucket that verifies. -/
def LoadsSelected (junk : DeviceNode → Junk) (noAuth : Bool) (env : Env) (st : State DtbFormat Bucket) : Prop :=
  let r := stateDoLoad (dtbFormatWith importer junk) bucketBackend noAuth env st
  r.1.alive = true → r.2.2 = 0 → ∀ kept data len, Selected (dtbFormatWith importer junk) noAuth env st kept data len →
    (dtbTree data).bind (importedValues importer st.data) = some (values r.2.1.data.vars)

variable {importer}

theorem importedValues_eq_some {s : StateData} {tree : DeviceNode} {vs : List Bytes} :
    importedValues importer s tree = some vs ↔ ∃ vars, importer s tree = some (vars, 0) ∧ values vars = vs := by
  rw [importedValues]
  split
  · next vars h => simp [h]
  · next hno =>
    simp only [reduceCtorEq, false_iff, not_exists, not_and]
    exact fun vars h => absurd h (hno vars)

/-- A load that selects something returns what the import of the tree in use
returns. -/
theorem stateDoLoad_selected {junk : DeviceNode → Junk} {noAuth : Bool} {env : Env} {st : State DtbFormat Bucket}
    {kept : DtbFormat} {data : Bytes} {len : Int}
    (h : Selected (dtbFormatWith importer junk) noAuth env st kept data len) :
    ∃ tree, dtbUsed kept data = some tree ∧
      match importer st.data tree with
      | none => (stateDoLoad (dtbFormatWith importer junk) bucketBackend noAuth env st).1.alive = false
      | some (vars, ret) =>
        (stateDoLoad (dtbFormatWith importer junk) bucketBackend noAuth env st).1.alive = true ∧
          (stateDoLoad (dtbFormatWith importer junk) bucketBackend noAuth env st).2.2 = ret ∧
          values (stateDoLoad (dtbFormatWith importer junk) bucketBackend noAuth env st).2.1.data.vars =
            values vars := by
  obtain ⟨halive, hsel⟩ := h
  have hread := @stateStorageRead_selects _ _ _ ((dtbFormatWith importer junk).verify st.data.magic noAuth)
    bucketDriver_readStops env st.format st.storage
  rw [hsel] at hread
  obtain ⟨hret, hformat, hbuf, hlen⟩ := hread
  obtain ⟨tree, htree, hun⟩ := dtbUnpackWith_selected hsel importer st.data
  refine ⟨tree, htree, ?_⟩
  simp only [stateDoLoad, show bucketBackend.toDriver = bucketDriver from rfl, hret, hformat, hbuf, hlen, stateUnpack,
    show (dtbFormatWith importer junk).unpack = dtbUnpackWith importer from rfl, hun]
  cases hfrom : importer st.data tree with
  | none => rfl
  | some r =>
    obtain ⟨vars, ret⟩ := r
    exact ⟨halive, rfl, values_freeDefault vars⟩

/-- **What is loaded**: the values of the first bucket that verifies, exactly
if the last blob that is parsed is not a tree, or is one that cannot be
imported or that has the same values. -/
theorem loaded_is_selected_iff (importer : StateData → DeviceNode → Option (List StateVariable × Int))
    (junk : DeviceNode → Junk) (noAuth : Bool) (env : Env) (st : State DtbFormat Bucket) :
    LoadsSelected importer junk noAuth env st ↔
      ∀ kept data len, Selected (dtbFormatWith importer junk) noAuth env st kept data len →
        ∀ tree vs, lastParsed (deliveries bucketDriver env st.storage.buckets) = some (some tree) →
          importedValues importer st.data tree = some vs →
            (dtbTree data).bind (importedValues importer st.data) = some vs := by
  constructor
  · intro h kept data len hsel tree vs hlast hvs
    obtain ⟨hkept, -⟩ := verifyAll_kept hsel.2
    obtain ⟨used, hused, hload⟩ := stateDoLoad_selected hsel
    rw [hkept, hlast] at hused
    obtain rfl : tree = used := Option.some.inj hused
    obtain ⟨vars, hfrom, rfl⟩ := importedValues_eq_some.1 hvs
    rw [hfrom] at hload
    obtain ⟨halive, hret, hvals⟩ := hload
    rw [← hvals]
    exact h halive hret kept data len hsel
  · intro h halive hret kept data len hsel
    obtain ⟨hkept, hsome⟩ := verifyAll_kept hsel.2
    obtain ⟨root, hlast⟩ := Option.isSome_iff_exists.1 (hsome rfl)
    obtain ⟨tree, hused, hload⟩ := stateDoLoad_selected hsel
    rw [hkept, hlast, Option.getD_some] at hused
    cases hfrom : importer st.data tree with
    | none =>
      rw [hfrom] at hload
      rw [hload] at halive
      cases halive
    | some r =>
      obtain ⟨vars, ret⟩ := r
      rw [hfrom] at hload
      obtain ⟨-, hr, hvals⟩ := hload
      obtain rfl : ret = 0 := hr.symm.trans hret
      rw [hvals]
      have himp : importedValues importer st.data tree = some (values vars) :=
        importedValues_eq_some.2 ⟨vars, hfrom, rfl⟩
      cases root with
      | some root =>
        obtain rfl : root = tree := Option.some.inj hused
        exact h kept data len hsel root _ hlast himp
      | none =>
        have hdata : dtbTree data = some tree := hused
        rw [hdata]
        exact himp

end

/-- The description of a state with the flag `a`. -/
def oneFlagNode : DeviceNode := stateNode [variableNode "a@0" "uint8" 0 1 []]

/-- A tree with a magic and the flag `a`, as `value`. -/
def flagBlob (magic value : Nat) : Bytes :=
  smallBlob [1, 0, 3, 4, 0, magic, 1, 0x61000000, 3, 6, 6, 0x75696e74, 0x38000000, 3, 4, 11, value, 2, 2, 9]
    (["magic", "type", "value"].flatMap fun name => (cstr name).1 ++ [0])

/-- A file with such a tree. -/
def treeFile (magic value : Nat) : BucketDirect :=
  ⟨256, false, false, false, directRecord (flagBlob magic value), treeStride_lt⟩

/-- The first file holds 1 and the second 2; the load selects the first one, and
leaves 2. -/
theorem loaded_other_bucket : ∃ s, stateFromNodeCreate oneFlagNode = some (s, 0) ∧
    ¬ LoadsSelected stateFromNode (fun _ _ _ => 0) false .ok
      (stateNew none false s [.direct (treeFile 1 1), .direct (treeFile 1 2)]) := by
  obtain ⟨s, hs⟩ : ∃ s, acceptedState oneFlagNode = some s :=
    Option.isSome_iff_exists.1 (by decide +kernel)
  have hload : (acceptedState oneFlagNode).map (fun s =>
      let st : State DtbFormat Bucket := stateNew none false s [.direct (treeFile 1 1), .direct (treeFile 1 2)]
      let r := stateDoLoad (dtbFormatWith stateFromNode fun _ _ _ => 0) bucketBackend false .ok st
      (r.1.alive, r.2.2, values r.2.1.data.vars)) = some (true, 0, [[2, 0, 0, 0]]) := by decide +kernel
  have hselected : (acceptedState oneFlagNode).map (fun s =>
      let st : State DtbFormat Bucket := stateNew none false s [.direct (treeFile 1 1), .direct (treeFile 1 2)]
      ((stateStorageRead bucketDriver dtbVerify .ok st.format st.storage).env.alive,
        (verifyAll dtbVerify st.format (deliveries bucketDriver .ok st.storage.buckets)).map fun v =>
          v.2.map Prod.fst)) = some (true, some (some (flagBlob 1 1))) := by decide +kernel
  have hstored : (acceptedState oneFlagNode).map (fun s =>
      (dtbTree (flagBlob 1 1)).bind (importedValues stateFromNode s)) = some (some [[1, 0, 0, 0]]) := by decide +kernel
  rw [hs, Option.map_some, Option.some.injEq] at hload hselected hstored
  simp only [Prod.mk.injEq, Option.map_eq_some_iff] at hload hselected
  obtain ⟨halive, hret, hvals⟩ := hload
  obtain ⟨hread, ⟨kept, _⟩, hverify, ⟨data, len⟩, rfl, rfl⟩ := hselected
  refine ⟨s, acceptedState_eq hs, fun h => ?_⟩
  have hsame := h halive hret kept (flagBlob 1 1) len ⟨hread, hverify⟩
  rw [hvals] at hsame
  have hdata : (stateNew none false s [.direct (treeFile 1 1), .direct (treeFile 1 2)] :
      State DtbFormat Bucket).data = s := rfl
  rw [hdata, hstored] at hsame
  cases hsame

end DtUtils
