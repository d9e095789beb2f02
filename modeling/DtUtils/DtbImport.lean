/-
What a load in the dtb format imports. The tree is the one that the format
kept of the last buffer it was given, and the one of the buffer in use only if
it kept none (`dtbUsed`); its nodes are imported in the order of `visits`, up
to the first that fails.
-/
import DtUtils.FdtTokens
import DtUtils.FormatDtb
import DtUtils.Layout
import DtUtils.Selection

namespace DtUtils
open Lib

/-! ## Verifying -/

theorem unflattenAdvance_error {f : FdtHeader} {dt size : Nat} {u : Unflattening} {e : Int}
    (h : unflattenAdvance f dt size u = .ret (.error e)) : e ≠ 0 := by
  rw [unflattenAdvance] at h
  split at h <;> cases h
  decide

theorem unflattenStep_error {fdt : Bytes} {f : FdtHeader} {dt : Nat} {u : Unflattening} {e : Int}
    (h : unflattenStep fdt f dt u = some (.ret (.error e))) : e ≠ 0 := by
  simp only [unflattenStep, Option.bind_eq_bind, Option.bind_eq_some_iff] at h
  obtain ⟨tag, -, h⟩ := h
  split at h
  · simp only [unflattenBeginNode, Option.bind_eq_bind, Option.bind_eq_some_iff] at h
    obtain ⟨len, -, h⟩ := h
    split at h
    · cases h
      decide
    · split at h <;>
      · obtain ⟨name, -, h⟩ := Option.bind_eq_some_iff.1 h
        exact unflattenAdvance_error (Option.some.inj h)
  split at h
  · have h := Option.some.inj h
    split at h
    · exact unflattenAdvance_error h
    · cases h
      decide
  split at h
  · simp only [unflattenProp, Option.bind_eq_bind, Option.bind_eq_some_iff] at h
    obtain ⟨len, -, nameoff, -, h⟩ := h
    split at h
    · cases h
      decide
    · obtain ⟨name, -, h⟩ := Option.bind_eq_some_iff.1 h
      obtain ⟨value, -, h⟩ := Option.bind_eq_some_iff.1 h
      split at h
      · exact unflattenAdvance_error (Option.some.inj h)
      · cases h
  split at h
  · exact unflattenAdvance_error (Option.some.inj h)
  split at h
  · cases h
  · cases h
    decide

theorem unflattenLoop_error {fdt : Bytes} {f : FdtHeader} {e : Int} : ∀ {n dt : Nat} {u : Unflattening},
    unflattenLoop fdt f n dt u = some (.ret (.error e)) → e ≠ 0
  | 0, dt, u, h => by cases h
  | n + 1, dt, u, h => by
    rw [unflattenLoop] at h
    split at h
    · exact unflattenLoop_error h
    · exact unflattenStep_error h

theorem ofUnflattenDtb_error {fdt : Bytes} {e : Int} (h : ofUnflattenDtb fdt = some (.error e)) : e ≠ 0 := by
  rw [ofUnflattenDtb] at h
  split at h
  · cases h
  · next e' hheader =>
    cases h
    simp only [fdtHeader, Option.bind_eq_bind, Option.bind_eq_some_iff] at hheader
    obtain ⟨magic, -, h⟩ := hheader
    split at h
    · cases h
      decide
    obtain ⟨version, -, h⟩ := Option.bind_eq_some_iff.1 h
    split at h
    · cases h
      decide
    simp only [Option.bind_eq_some_iff] at h
    obtain ⟨_, -, _, -, _, -, _, -, _, -, h⟩ := h
    repeat' split at h
    all_goals cases h
    all_goals decide
  · split at h
    · next hloop =>
      cases h
      exact unflattenLoop_error hloop
    · cases h

/-- What a call of `verify` comes to that does not fault. -/
inductive DtbVerified (root : DtbFormat) (buf : Bytes) (len : Int) : DtbFormat → Int → Int → Prop
  /-- The blob is longer than what was read. -/
  | short {n} : be32At buf 4 = some n → (len % 2 ^ 64).toNat < n → DtbVerified root buf len root (-EINVAL) len
  | broken {n e} : be32At buf 4 = some n → n ≤ (len % 2 ^ 64).toNat → ofUnflattenDtb buf = some (.error e) → e ≠ 0 →
      DtbVerified root buf len none e len
  | accepted {n : Nat} {tree} : be32At buf 4 = some n → n ≤ (len % 2 ^ 64).toNat →
      ofUnflattenDtb buf = some (.ok tree) → DtbVerified root buf len (some tree) 0 n

theorem dtbVerify_cases {root root' : DtbFormat} {buf : Bytes} {len len' ret : Int}
    (h : dtbVerify root buf len = some (root', ret, len')) : DtbVerified root buf len root' ret len' := by
  simp only [dtbVerify, Option.bind_eq_bind, Option.bind_eq_some_iff] at h
  obtain ⟨n, hn, h⟩ := h
  split at h
  · next hlt =>
    cases h
    exact .short hn hlt
  next hge =>
  split at h
  · cases h
  · next e he =>
    cases h
    exact .broken hn (by omega) he (ofUnflattenDtb_error he)
  · next tree ht =>
    cases h
    exact .accepted hn (by omega) ht

/-- The tree of a buffer that the parser accepts. -/
def dtbTree (buf : Bytes) : Option DeviceNode :=
  match ofUnflattenDtb buf with
  | some (.ok tree) => some tree
  | _ => none

/-- The tree that `unpack` imports. -/
def dtbUsed (kept : DtbFormat) (buf : Bytes) : Option DeviceNode := kept <|> dtbTree buf

theorem DtbVerified.again {root root' : DtbFormat} {buf : Bytes} {len len' : Int}
    (h : DtbVerified root buf len root' 0 len') :
    ∃ tree, dtbTree buf = some tree ∧ root' = some tree ∧ dtbVerify none buf len' = some (some tree, 0, len') := by
  generalize hret : (0 : Int) = ret at h
  cases h with
  | short => cases hret
  | broken _ _ _ hne => exact absurd hret.symm hne
  | @accepted n tree hn _ htree =>
    have hlt := be32At_lt hn
    refine ⟨tree, by rw [dtbTree, htree], rfl, ?_⟩
    have hmod : ((n : Int) % 2 ^ 64).toNat = n := by omega
    simp only [dtbVerify, hn, htree, hmod, Option.bind_eq_bind, Option.bind_some]
    rw [if_neg (by omega)]
    rfl

/-- Unpacking what was selected imports the tree kept of the last buffer. -/
theorem dtbUnpackWith_selected {f kept : DtbFormat} {xs : List Delivery} {buf : Bytes} {len : Int}
    (h : verifyAll dtbVerify f xs = some (kept, some (buf, len)))
    (importer : StateData → DeviceNode → Option (List StateVariable × Int)) (s : StateData) :
    ∃ tree, dtbUsed kept buf = some tree ∧ dtbUnpackWith importer kept s buf len =
      (importer s tree).map fun r => (none, r.1.map StateVariable.freeDefault, r.2) := by
  obtain ⟨f₀, f₁, len₀, -, hv⟩ := verifyAll_selected h
  obtain ⟨tree, htree, -, hagain⟩ := (dtbVerify_cases hv).again
  have hbind : ∀ x : Option (List StateVariable × Int),
      (x.bind fun r => some ((none : DtbFormat), r.1.map StateVariable.freeDefault, r.2)) =
        x.map fun r => (none, r.1.map StateVariable.freeDefault, r.2) := by
    intro x
    cases x <;> rfl
  cases kept with
  | some root => exact ⟨root, rfl, hbind _⟩
  | none =>
    refine ⟨tree, htree, ?_⟩
    simp only [dtbUnpackWith, hagain, Option.map_some, Option.bind_eq_bind, Option.bind_some]
    exact hbind _

/-! ## The walk -/

mutual
/-- The nodes that a conversion goes through, each with its full name. -/
def visits (parentName : CString) : DeviceNode → List (CString × DeviceNode)
  | .node nodeName phandle properties children =>
    visitsBelow (variableName parentName nodeName) children ++
      [(variableName parentName nodeName, .node nodeName phandle properties children)]

def visitsBelow (name : CString) : List DeviceNode → List (CString × DeviceNode)
  | [] => []
  | child :: children => visits name child ++ visitsBelow name children
end

/-- One conversion after the other, up to the first that fails. -/
def convertVisits (create : Bool) (vars : List StateVariable) :
    List (CString × DeviceNode) → Option (List StateVariable × Int)
  | [] => some (vars, 0)
  | (name, node) :: rest => do
    let (vars, ret) ← stateConvertVariable create name node vars
    if ret ≠ 0 then return (vars, ret) else convertVisits create vars rest

theorem convertVisits_append {create : Bool} {front rest : List (CString × DeviceNode)} {vars : List StateVariable} :
    convertVisits create vars (front ++ rest) = (convertVisits create vars front).bind fun r =>
      if r.2 ≠ 0 then some r else convertVisits create r.1 rest := by
  induction front generalizing vars with
  | nil => simp [convertVisits]
  | cons v front ih =>
    obtain ⟨name, node⟩ := v
    rw [List.cons_append, convertVisits, convertVisits]
    cases stateConvertVariable create name node vars with
    | none => rfl
    | some r =>
      obtain ⟨vars₁, ret⟩ := r
      simp only [Option.bind_eq_bind, Option.bind_some]
      by_cases h0 : ret = 0
      · rw [if_neg (by simp [h0]), if_neg (by simp [h0]), ih]
      · rw [if_pos h0, if_pos h0]
        simp [h0]

theorem convertVisits_single {create : Bool} {name : CString} {node : DeviceNode} {vars : List StateVariable} :
    convertVisits create vars [(name, node)] = stateConvertVariable create name node vars := by
  simp only [convertVisits]
  cases stateConvertVariable create name node vars with
  | none => rfl
  | some r =>
    obtain ⟨vars', ret⟩ := r
    by_cases h0 : ret = 0 <;> simp [h0]

mutual
theorem stateConvertNodeVariable_visits {create : Bool} {parentName : CString} {vars : List StateVariable} :
    ∀ node : DeviceNode, stateConvertNodeVariable create parentName vars node =
      convertVisits create vars (visits parentName node)
  | .node nodeName phandle properties children => by
    rw [stateConvertNodeVariable, visits, convertVisits_append, stateConvertChildren_visits]
    simp only [convertVisits_single]
    rfl

/-- The conversion of the nodes is the walk over the visits. -/
theorem stateConvertChildren_visits {create : Bool} {name : CString} {vars : List StateVariable} :
    ∀ nodes : List DeviceNode, stateConvertChildren create name vars nodes =
      convertVisits create vars (visitsBelow name nodes)
  | [] => rfl
  | node :: nodes => by
    rw [stateConvertChildren, visitsBelow, convertVisits_append, stateConvertNodeVariable_visits]
    simp only [stateConvertChildren_visits nodes]
    rfl
end

/-! ## Values -/

@[simp] theorem VarData.freeDefault_value (data : VarData) : data.freeDefault.value = data.value := by
  cases data with
  | string s =>
    simp only [freeDefault, StateString.freeDefault]
    split <;> rfl
  | _ => rfl

@[simp] theorem values_freeDefault (vars : List StateVariable) : values (vars.map StateVariable.freeDefault) =
    values vars := by
  simp [values, StateVariable.freeDefault, Function.comp_def]

@[simp] theorem stateStringImportDefault_raw (node : DeviceNode) (s : StateString) :
    (stateStringImportDefault node s).raw = s.raw := by
  rw [stateStringImportDefault]
  split <;> rfl

end DtUtils
