/-
`dtblint`: the checks of the pins of i.MX SoCs and of the reset GPIOs of their
network and PCIe controllers. The tables of pads are parameters. Only what is
written to the standard output is modelled; `none` results are accesses outside
an object.

It prints nothing there exactly for the trees in which each pin and each reset
GPIO keeps its rule (`dtblint_silent_iff`).
-/
import DtUtils.Aliases
import DtUtils.PhandleArgs

namespace DtUtils
open Lib

/-! ## Pins -/

/-- `struct padinfo`, as far as it is read -/
structure PadInfo where
  padname : CString
  swmuxRegoffset : Int
  swpadRegoffset : Int
  swpadResetDefault : UInt32
  swpadWriteableMask : UInt32

/-- The pads of the SoCs. -/
structure PadTables where
  imx25 : List PadInfo
  imx6dl : List PadInfo
  imx6q : List PadInfo

/-- `IMX_NO_PAD_CTL` -/
def imxNoPadCtl : UInt32 := 0x80000000

/-- `IMX_PAD_SION` -/
def imxPadSion : UInt32 := 0x40000000

/-- A number in hexadecimal digits, at least `width` of them. -/
def hexNumber (width : Nat) (v : UInt32) : Bytes :=
  let digits := (Nat.toDigits 16 v.toNat).map fun c => UInt8.ofNat c.toNat
  List.replicate (width - digits.length) 48 ++ digits

/-- `find_padinfo` -/
def findPadinfo (swmuxRegoffset : Int) (socinfo : List PadInfo) : Option PadInfo :=
  socinfo.find? (·.swmuxRegoffset = swmuxRegoffset)

/-- What the loop of `parse_function` prints for a pin. -/
def lintPin (socinfo : List PadInfo) (muxReg confReg config : UInt32) : Bytes :=
  let confReg : Int := if confReg = 0 then -1 else confReg.toNat
  let config := config &&& ~~~imxPadSion
  match findPadinfo muxReg.toNat socinfo with
  | none => []
  | some padinfo =>
    let reserved := (config ^^^ padinfo.swpadResetDefault) &&& ~~~padinfo.swpadWriteableMask
    (if confReg ≠ padinfo.swpadRegoffset then
      (cstr "E: wrong offset for SW_PAD register (").1 ++ padinfo.padname.1 ++ (cstr ")\n").1
    else []) ++
    if confReg = -1 then
      if config ≠ imxNoPadCtl then
        (cstr "E: config value without config register (").1 ++ padinfo.padname.1 ++ (cstr ")\n").1
      else []
    else if config = imxNoPadCtl then
      (cstr "S: explicitly use 0x").1 ++ hexNumber 8 padinfo.swpadResetDefault ++ (cstr " as config value for ").1 ++
        padinfo.padname.1 ++ (cstr "\n").1
    else if reserved ≠ 0 then
      (cstr "E: config value specified for reserved bit differ from reset value (").1 ++ padinfo.padname.1 ++
        (cstr ", ").1 ++ hexNumber 0 reserved ++ (cstr ")\n").1
    else []

/-- `parse_function`: what it prints to the standard output, and what it returns.
A list that is missing or has a bad length, and pads that are not in the table,
are told on `stderr` only. A pin has 24 bytes; the cells of its input register and
of its mode are not looked at. -/
def parseFunction (socinfo : List PadInfo) (funcnode : TreeNode) : Bytes × Int :=
  match ofGetProperty funcnode.device (cstr "fsl,pins") with
  | none => ([], -EINVAL)
  | some list =>
    if list = [] ∨ list.length % 24 ≠ 0 then ([], -EINVAL)
    else ((List.range (list.length / 24)).flatMap fun i =>
      lintPin socinfo (cell (24 * i) list) (cell (24 * i + 4) list) (cell (24 * i + 20) list), 0)

/-- The nodes with pins below a pin controller. -/
def functionNodes (t : NodeTree) (np : Nat) : List Nat :=
  (t.node np).children.flatMap fun npc =>
    if (ofFindProperty (t.node npc).device (cstr "fsl,pins")).isSome then [npc] else (t.node npc).children

/-- `iomux_id` -/
def iomuxId (pads : PadTables) : List (CString × List PadInfo) :=
  [(cstr "fsl,imx25-iomuxc", pads.imx25), (cstr "fsl,imx6dl-iomuxc", pads.imx6dl),
    (cstr "fsl,imx6q-iomuxc", pads.imx6q)]

/-- What a loop prints whose rounds print something each. -/
def printAll {α : Type} (xs : List α) (print : α → Option Bytes) : Option Bytes :=
  (xs.mapM print).map List.flatten

/-- `dtblint_imx_pinmux` -/
def dtblintImxPinmux (pads : PadTables) (t : NodeTree) : Option Bytes :=
  printAll (iomuxId pads) fun (compatible, socinfo) => do
    let nps ← forEachCompatibleNode t compatible
    return nps.flatMap fun np => (functionNodes t np).flatMap fun funcnode => (parseFunction socinfo (t.node funcnode)).1

/-! ## Reset GPIOs -/

/-- `fsl_fec_compatibles` -/
def fslFecCompatibles : List CString :=
  ["fsl,imx25-fec", "fsl,imx27-fec", "fsl,imx28-fec", "fsl,imx6q-fec", "fsl,imx6sx-fec", "fsl,mvf600-fec"].map cstr

/-- `fsl_pcie_compatibles` -/
def fslPcieCompatibles : List CString :=
  ["fsl,imx6q-pcie", "fsl,imx6sx-pcie", "fsl,imx6qp-pcie", "fsl,imx7d-pcie"].map cstr

/-- What is printed for a controller, if the flag of its GPIO does not match the
presence of the property. -/
def lintPolarity (t : NodeTree) (gpios activeHigh message : CString) (np : Nat) : Option Bytes := do
  let activeHighProperty := (ofFindProperty (t.node np).device activeHigh).isSome
  let (ret, outArgs) ← ofParsePhandleWithArgs t np gpios (cstr "#gpio-cells") 0 true
  if ret < 0 then return []
  else
    match outArgs.map PhandleArgs.args with
    | some (_ :: flags :: _) =>
      return if decide (flags = 0) ≠ activeHighProperty then
        message.1 ++ (cstr " (").1 ++ (t.node np).fullName.1 ++ (cstr ")\n").1
      else []
    | _ => return []

/-- The check of the controllers with one of these `compatible` strings. -/
def resetPolarity (compatibles : List CString) (gpios activeHigh message : CString) (t : NodeTree) : Option Bytes :=
  printAll compatibles fun compatible => do
    printAll (← forEachCompatibleNode t compatible) (lintPolarity t gpios activeHigh message)

/-- `fsl_fec_reset_polarity` -/
def fslFecResetPolarity : NodeTree → Option Bytes :=
  resetPolarity fslFecCompatibles (cstr "phy-reset-gpios") (cstr "phy-reset-active-high")
    (cstr "E: phy-reset-gpios flags don't match presence of phy-reset-active-high property")

/-- `fsl_pcie_reset_polarity` -/
def fslPcieResetPolarity : NodeTree → Option Bytes :=
  resetPolarity fslPcieCompatibles (cstr "reset-gpio") (cstr "reset-gpio-active-high")
    (cstr "E: reset-gpios flags don't match presence of reset-gpio-active-high property")

/-! ## The program -/

/-- The checks in `main`. -/
def dtblint (pads : PadTables) (t : NodeTree) : Option Bytes :=
  printAll [dtblintImxPinmux pads, fslFecResetPolarity, fslPcieResetPolarity] fun check => check t

/-- `main`, given the file that is named, if it could be read: what it prints to
the standard output, and its exit code. -/
def dtblintMain (pads : PadTables) (A : Allocator) (file : Option Bytes) : Option (Bytes × Nat) :=
  match file with
  | none => some ([], 1)
  | some fdt => do
    match ← ofUnflattenDtb fdt with
    | .error _ => return ([], 1)
    | .ok root =>
      let _ ← ofSetRootNode none (loadTree A root)
      return (← dtblint pads (loadTree A root), 0)

/-! ## The rules -/

/-- A pin of a known pad has the pad's register and the value that it resets to
in all reserved bits, or no register and no value. -/
def PinRule (socinfo : List PadInfo) (muxReg confReg config : UInt32) : Prop :=
  ∀ padinfo, findPadinfo muxReg.toNat socinfo = some padinfo →
    if confReg = 0 then -1 = padinfo.swpadRegoffset ∧ config &&& ~~~imxPadSion = imxNoPadCtl
    else confReg.toNat = padinfo.swpadRegoffset ∧ config &&& ~~~imxPadSion ≠ imxNoPadCtl ∧
      ((config &&& ~~~imxPadSion) ^^^ padinfo.swpadResetDefault) &&& ~~~padinfo.swpadWriteableMask = 0

/-- All pins of a node keep their rule. -/
def FunctionRule (socinfo : List PadInfo) (funcnode : TreeNode) : Prop :=
  ∀ list, ofGetProperty funcnode.device (cstr "fsl,pins") = some list → list.length % 24 = 0 →
    ∀ i < list.length / 24,
      PinRule socinfo (cell (24 * i) list) (cell (24 * i + 4) list) (cell (24 * i + 20) list)

/-- The flags of a controller's first GPIO are 0 exactly if it has the property. -/
def PolarityRule (t : NodeTree) (gpios activeHigh : CString) (np : Nat) : Prop :=
  ∀ value node args groups whole flags, ofGetProperty (t.node np).device gpios = some value →
    PhandleGroups t (cstr "#gpio-cells") (cellsOf value) (.entry node args :: groups) whole → args[1]? = some flags →
    (flags = 0 ↔ (ofFindProperty (t.node np).device activeHigh).isSome)

/-- A node other than the root that is compatible. -/
def Compatible (t : NodeTree) (compatible : CString) (np : Nat) : Prop :=
  np ∈ t.live ∧ t.rootNode ≠ some np ∧ ofDeviceIsCompatible (t.node np).device compatible = some true

/-- The strings that are looked for in the `compatible` properties. -/
def lintCompatibles : List CString :=
  ["fsl,imx25-iomuxc", "fsl,imx6dl-iomuxc", "fsl,imx6q-iomuxc"].map cstr ++ fslFecCompatibles ++ fslPcieCompatibles

/-- No `compatible` property is read behind its end. -/
def CompatiblesEnd (t : NodeTree) : Prop :=
  ∀ compatible ∈ lintCompatibles, ∀ np ∈ t.live, t.rootNode ≠ some np →
    ofDeviceIsCompatible (t.node np).device compatible ≠ none

/-- All rules are kept. -/
structure LintFree (pads : PadTables) (t : NodeTree) : Prop where
  pins : ∀ compatible socinfo, (compatible, socinfo) ∈ iomuxId pads → ∀ np, Compatible t compatible np →
    ∀ funcnode ∈ functionNodes t np, FunctionRule socinfo (t.node funcnode)
  fec : ∀ compatible ∈ fslFecCompatibles, ∀ np, Compatible t compatible np →
    PolarityRule t (cstr "phy-reset-gpios") (cstr "phy-reset-active-high") np
  pcie : ∀ compatible ∈ fslPcieCompatibles, ∀ np, Compatible t compatible np →
    PolarityRule t (cstr "reset-gpio") (cstr "reset-gpio-active-high") np

/-! ## Silence -/

theorem printAll_nil {α : Type} {print : α → Option Bytes} : ∀ {xs : List α},
    printAll xs print = some [] ↔ ∀ x ∈ xs, print x = some []
  | [] => by simp [printAll]
  | x :: xs => by
    have ih : printAll xs print = some [] ↔ ∀ x ∈ xs, print x = some [] := printAll_nil
    rw [printAll, Option.map_eq_some_iff] at ih
    rw [List.forall_mem_cons, ← ih, printAll, List.mapM_cons]
    cases hx : print x with
    | none => simp
    | some text =>
      cases hxs : xs.mapM print with
      | none => simp
      | some texts => simp

theorem lintPin_nil {socinfo : List PadInfo} {muxReg confReg config : UInt32} :
    lintPin socinfo muxReg confReg config = [] ↔ PinRule socinfo muxReg confReg config := by
  rw [lintPin, PinRule]
  cases hpad : findPadinfo muxReg.toNat socinfo with
  | none => simp
  | some padinfo =>
    have hoffset : (cstr "E: wrong offset for SW_PAD register (").1 ≠ [] := by decide
    have hvalue : (cstr "E: config value without config register (").1 ≠ [] := by decide
    have hexplicit : (cstr "S: explicitly use 0x").1 ≠ [] := by decide
    have hreserved : (cstr "E: config value specified for reserved bit differ from reset value (").1 ≠ [] := by decide
    have hregister : (confReg.toNat : Int) ≠ -1 := by omega
    by_cases hconf : confReg = 0
    · by_cases hconfig : config &&& ~~~imxPadSion = imxNoPadCtl <;>
        simp [hconf, hconfig, hoffset, hvalue]
    · by_cases hconfig : config &&& ~~~imxPadSion = imxNoPadCtl
      · simp [hconf, hconfig, hoffset, hexplicit, hregister]
      · simp [hconf, hconfig, hoffset, hreserved, hregister]

theorem parseFunction_nil {socinfo : List PadInfo} {funcnode : TreeNode} :
    (parseFunction socinfo funcnode).1 = [] ↔ FunctionRule socinfo funcnode := by
  rw [parseFunction, FunctionRule]
  cases hlist : ofGetProperty funcnode.device (cstr "fsl,pins") with
  | none => simp
  | some list =>
    by_cases hbad : list = [] ∨ list.length % 24 ≠ 0
    · simp only [if_pos hbad, true_iff]
      rintro list ⟨⟩ hmod i hi
      rcases hbad with rfl | hbad
      · exact absurd hi (by simp)
      · exact absurd hmod hbad
    · simp only [if_neg hbad, List.flatMap_eq_nil_iff, List.mem_range, lintPin_nil, Option.some.injEq, forall_eq']
      exact ⟨fun h _ => h, fun h => h (by omega)⟩

section
variable {t : NodeTree} {root : Nat} {order : List Nat}

theorem NodeTree.WellFormed.mem_order_iff (h : t.WellFormed root order) {np : Nat} :
    np ∈ order ↔ np ∈ t.live ∧ t.rootNode ≠ some np := by
  constructor
  · exact fun hnp => ⟨(h.live np).2 (List.mem_cons_of_mem _ hnp), h.ne_root hnp⟩
  · rintro ⟨hlive, hroot⟩
    rcases List.mem_cons.1 ((h.live np).1 hlive) with rfl | hnp
    · exact absurd h.rootNode hroot
    · exact hnp

theorem NodeTree.WellFormed.forEachCompatible_iff (h : t.WellFormed root order) {compatible : CString}
    {P : List Nat → Prop} {Q : Nat → Prop} (hP : ∀ nps, P nps ↔ ∀ np ∈ nps, Q np) :
    (∃ nps, forEachCompatibleNode t compatible = some nps ∧ P nps) ↔
      (∀ np ∈ t.live, t.rootNode ≠ some np → ofDeviceIsCompatible (t.node np).device compatible ≠ none) ∧
      ∀ np, Compatible t compatible np → Q np := by
  have hloop : forEachCompatibleNode t compatible = _ := h.forEachFound_eq _
  simp only [hloop, hP, Compatible, ← and_assoc, ← h.mem_order_iff]
  constructor
  · rintro ⟨nps, hnps, hall⟩
    split at hnps
    · next hjudged =>
      cases hnps
      refine ⟨fun np hlive hroot => hjudged np (h.mem_order_iff.2 ⟨hlive, hroot⟩), fun np hnp => hall np ?_⟩
      simpa using hnp
    · cases hnps
  · rintro ⟨hjudged, hall⟩
    refine ⟨_, if_pos fun np hnp => ?_, fun np hnp => hall np ?_⟩
    · obtain ⟨hlive, hroot⟩ := h.mem_order_iff.1 hnp
      exact hjudged np hlive hroot
    · simpa using hnp

/-- What is printed for a list whose first group is known. -/
theorem NodeTree.WellFormed.lintPolarity_entry (h : t.WellFormed root order) {gpios activeHigh message : CString}
    {np node : Nat} {value : Bytes} {args : List UInt32} {groups : List PhandleGroup} {whole : Bool}
    (hvalue : ofGetProperty (t.node np).device gpios = some value)
    (hgroups : PhandleGroups t (cstr "#gpio-cells") (cellsOf value) (.entry node args :: groups) whole) :
    lintPolarity t gpios activeHigh message np = some (match (args[1]? : Option UInt32) with
      | some flags => if decide (flags = 0) ≠ (ofFindProperty (t.node np).device activeHigh).isSome then
          message.1 ++ (cstr " (").1 ++ (t.node np).fullName.1 ++ (cstr ")\n").1 else []
      | none => []) := by
  have hparse : ofParsePhandleWithArgs t np gpios (cstr "#gpio-cells") 0 true =
      some (0, some ⟨node, args.take maxPhandleArgs⟩) := by
    rw [ofParsePhandleWithArgs, if_neg (by decide), h.parsePhandleWithArgs hvalue hgroups]
    rfl
  rw [lintPolarity, hparse]
  rcases args with _ | ⟨a, _ | ⟨flags, rest⟩⟩
  · rfl
  · rfl
  · simp [maxPhandleArgs, apply_ite some]

theorem NodeTree.WellFormed.lintPolarity_nil (h : t.WellFormed root order) {gpios activeHigh message : CString} {np : Nat}
    (hmessage : message.1 ≠ []) :
    lintPolarity t gpios activeHigh message np = some [] ↔ PolarityRule t gpios activeHigh np := by
  constructor
  · intro hsilent value node args groups whole flags hvalue hgroups hflags
    rw [h.lintPolarity_entry hvalue hgroups, hflags] at hsilent
    by_cases hflags0 : flags = 0 <;>
      cases hproperty : (ofFindProperty (t.node np).device activeHigh).isSome <;>
      simp [hflags0, hproperty, hmessage] at hsilent ⊢
  · intro hrule
    cases hvalue : ofGetProperty (t.node np).device gpios with
    | none =>
      rw [lintPolarity, ofParsePhandleWithArgs, if_neg (by decide), DtUtils.parsePhandleWithArgs, hvalue]
      rfl
    | some value =>
      obtain ⟨groups, whole, hgroups⟩ := exists_phandleGroups t (cstr "#gpio-cells") (Nat.lt_succ_self (cellsOf value).length)
      rcases groups with _ | ⟨_ | ⟨node, args⟩, groups⟩
      · rw [lintPolarity, ofParsePhandleWithArgs, if_neg (by decide), h.parsePhandleWithArgs hvalue hgroups]
        cases whole <;> rfl
      · rw [lintPolarity, ofParsePhandleWithArgs, if_neg (by decide), h.parsePhandleWithArgs hvalue hgroups]
        rfl
      · rw [h.lintPolarity_entry hvalue hgroups]
        cases hflags : args[1]? with
        | none => rfl
        | some flags =>
          have hflag := hrule value node args groups whole flags hvalue hgroups hflags
          have heq : decide (flags = 0) = (ofFindProperty (t.node np).device activeHigh).isSome := by
            rw [Bool.eq_iff_iff, decide_eq_true_iff]
            exact hflag
          simp [heq]

/-- A check of the controllers is silent if all of them keep their rule. -/
theorem NodeTree.WellFormed.resetPolarity_nil (h : t.WellFormed root order) {compatibles : List CString}
    {gpios activeHigh message : CString} (hmessage : message.1 ≠ []) :
    resetPolarity compatibles gpios activeHigh message t = some [] ↔
      (∀ compatible ∈ compatibles, ∀ np ∈ t.live, t.rootNode ≠ some np →
        ofDeviceIsCompatible (t.node np).device compatible ≠ none) ∧
      ∀ compatible ∈ compatibles, ∀ np, Compatible t compatible np → PolarityRule t gpios activeHigh np := by
  rw [resetPolarity, printAll_nil, ← forall₂_and]
  refine forall₂_congr fun compatible _ => ?_
  rw [Option.bind_eq_bind, Option.bind_eq_some_iff]
  refine h.forEachCompatible_iff fun nps => ?_
  simp only [printAll_nil, h.lintPolarity_nil hmessage]

theorem NodeTree.WellFormed.dtblintImxPinmux_nil (h : t.WellFormed root order) {pads : PadTables} :
    dtblintImxPinmux pads t = some [] ↔
      (∀ compatible socinfo, (compatible, socinfo) ∈ iomuxId pads → ∀ np ∈ t.live, t.rootNode ≠ some np →
        ofDeviceIsCompatible (t.node np).device compatible ≠ none) ∧
      ∀ compatible socinfo, (compatible, socinfo) ∈ iomuxId pads → ∀ np, Compatible t compatible np →
        ∀ funcnode ∈ functionNodes t np, FunctionRule socinfo (t.node funcnode) := by
  have hloop (compatible : CString) (socinfo : List PadInfo) :
      ((forEachCompatibleNode t compatible).bind fun nps => some (nps.flatMap fun np =>
        (functionNodes t np).flatMap fun funcnode => (parseFunction socinfo (t.node funcnode)).1)) = some [] ↔
      (∀ np ∈ t.live, t.rootNode ≠ some np → ofDeviceIsCompatible (t.node np).device compatible ≠ none) ∧
      ∀ np, Compatible t compatible np → ∀ funcnode ∈ functionNodes t np, FunctionRule socinfo (t.node funcnode) := by
    rw [Option.bind_eq_some_iff]
    refine h.forEachCompatible_iff fun nps => ?_
    simp only [Option.some.injEq, List.flatMap_eq_nil_iff, parseFunction_nil]
  rw [dtblintImxPinmux, printAll_nil, Prod.forall]
  constructor
  · intro hall
    exact ⟨fun compatible socinfo hmem => ((hloop compatible socinfo).1 (hall compatible socinfo hmem)).1,
      fun compatible socinfo hmem => ((hloop compatible socinfo).1 (hall compatible socinfo hmem)).2⟩
  · intro hall compatible socinfo hmem
    exact (hloop compatible socinfo).2 ⟨hall.1 compatible socinfo hmem, hall.2 compatible socinfo hmem⟩

theorem NodeTree.WellFormed.dtblint_nil (h : t.WellFormed root order) {pads : PadTables} :
    dtblint pads t = some [] ↔ CompatiblesEnd t ∧ LintFree pads t := by
  have hends : CompatiblesEnd t ↔ (∀ compatible socinfo, (compatible, socinfo) ∈ iomuxId pads → ∀ np ∈ t.live,
      t.rootNode ≠ some np → ofDeviceIsCompatible (t.node np).device compatible ≠ none) ∧
      (∀ compatible ∈ fslFecCompatibles, ∀ np ∈ t.live, t.rootNode ≠ some np →
        ofDeviceIsCompatible (t.node np).device compatible ≠ none) ∧
      ∀ compatible ∈ fslPcieCompatibles, ∀ np ∈ t.live, t.rootNode ≠ some np →
        ofDeviceIsCompatible (t.node np).device compatible ≠ none := by
    rw [CompatiblesEnd, lintCompatibles]
    simp only [List.mem_append, or_imp, forall_and, and_assoc]
    refine and_congr_left fun _ => ?_
    simp [iomuxId, or_imp, forall_and]
  rw [dtblint, printAll_nil, hends]
  simp only [List.forall_mem_cons, List.not_mem_nil, false_imp_iff, implies_true, and_true, h.dtblintImxPinmux_nil,
    fslFecResetPolarity, fslPcieResetPolarity]
  rw [h.resetPolarity_nil (by decide), h.resetPolarity_nil (by decide)]
  constructor
  · rintro ⟨⟨hpins, hpinRule⟩, ⟨hfec, hfecRule⟩, hpcie, hpcieRule⟩
    exact ⟨⟨hpins, hfec, hpcie⟩, hpinRule, hfecRule, hpcieRule⟩
  · rintro ⟨⟨hpins, hfec, hpcie⟩, hpinRule, hfecRule, hpcieRule⟩
    exact ⟨⟨hpins, hpinRule⟩, ⟨hfec, hfecRule⟩, hpcie, hpcieRule⟩

end

/-- **The linter is silent exactly for the trees that keep its rules**: for a
blob that is a tree it prints nothing to its standard output, reads nothing
outside an object and returns 0 if and only if the aliases can be scanned, the
`compatible` properties end, and all pins and all GPIOs keep their rules. -/
theorem dtblint_silent_iff {fdt : Bytes} {tree : DeviceNode} (h : ofUnflattenDtb fdt = some (.ok tree))
    (pads : PadTables) (A : Allocator) :
    dtblintMain pads A (some fdt) = some ([], 0) ↔ (ofAliasScan (loadTree A tree) ⟨none, []⟩).isSome ∧
      CompatiblesEnd (loadTree A tree) ∧ LintFree pads (loadTree A tree) := by
  obtain ⟨root, order, hwf, -⟩ := loadTree_spec A (unflatten_own h)
  rw [← hwf.dtblint_nil, dtblintMain, h]
  simp only [Option.bind_eq_bind, Option.bind_some, ofSetRootNode]
  cases ofAliasScan (loadTree A tree) ⟨none, []⟩ with
  | none => simp
  | some a => cases dtblint pads (loadTree A tree) <;> simp

/-- A network controller whose PHY is reset by a GPIO with these flags. -/
def fecTree (flags : UInt32) : DeviceNode :=
  .node .empty 0 [] [.node (cstr "fec") 0 [⟨cstr "compatible", (cstr "fsl,imx25-fec").1 ++ [0]⟩,
      ⟨cstr "phy-reset-gpios", [7, 5, flags].flatMap fun c => beBytes 4 c.toNat⟩] [],
    .node (cstr "gpio") 7 [⟨cstr "phandle", beBytes 4 7⟩, ⟨cstr "#gpio-cells", beBytes 4 2⟩] []]

/-- The GPIO is active low, and so the controller takes it. -/
theorem dtblint_silent_fecTree : ∃ blob, dtblintMain ⟨[], [], []⟩ nextAddress (some blob) = some ([], 0) ∧
    LintFree ⟨[], [], []⟩ (loadTree nextAddress (fecTree 1)) := by
  have hnames : (fecTree 1).All ShortNames := by
    simp only [fecTree, DeviceNode.All, allNodes, ShortNames, ShortName, DeviceNode.name, DeviceNode.properties]
    decide
  have hroomy : (fecTree 1).All RoomyNames := hnames.imp fun _ => ShortNames.roomy
  obtain ⟨blob, f, -, hat, -, hend, toks, e, htoks, hnode, htag, -⟩ :=
    flatten_denotes (hroomy.imp fun _ => RoomyNames.copied) (.inl hroomy)
      (neverGrows_of_room (fun _ _ => 0) hroomy (by decide +kernel) (by decide +kernel))
  have htoks := htoks.mono (hat.strings_le.trans hat.totalsize_le)
  have hblob : ofUnflattenDtb blob = some (.ok (fecTree 1)) := hat.unflatten htoks hnode htag (htoks.small hend)
  have hmain : dtblintMain ⟨[], [], []⟩ nextAddress (some blob) = some ([], 0) := by
    rw [dtblintMain, hblob]
    have hscan : (ofSetRootNode none (loadTree nextAddress (fecTree 1))).isSome = true := by decide +kernel
    have hlint : dtblint ⟨[], [], []⟩ (loadTree nextAddress (fecTree 1)) = some [] := by decide +kernel
    obtain ⟨roots, hroots⟩ := Option.isSome_iff_exists.1 hscan
    simp [hroots, hlint]
  exact ⟨blob, hmain, ((dtblint_silent_iff hblob _ _).1 hmain).2.2⟩

example : dtblint ⟨[], [], []⟩ (loadTree nextAddress (fecTree 0)) = some (cstr
    "E: phy-reset-gpios flags don't match presence of phy-reset-active-high property (/fec)\n").1 := by decide +kernel

end DtUtils
