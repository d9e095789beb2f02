/-
The state library under `barebox-state`, twice. `storageLibrary` keeps each state
in its direct buckets: `stateNew`, `stateDoLoad` and `stateSave` on what the
medium holds at the time. `cellLibrary` keeps for each state one payload, or
none: no redundancy, no checksums and nothing to repair.

`heldCells` is what the buckets come to, the data that the next load uses. Loads
keep it, and a save replaces it (`StorageRelated.load`, `StorageRelated.save`).
-/
import DtUtils.Program
import DtUtils.DirtyFlag

namespace DtUtils
open Lib

/-! ## The library of the storage -/

/-- A state's node and what `state_new_from_node` finds out with it before it
opens the buckets: the state's name and the stride, or an error. -/
structure Site where
  node : DeviceNode
  backend : Except Int (CString × UInt32)

/-- What is outside the process: for each site, the content of its buckets. -/
structure World where
  env : Env
  media : Nat → List Bytes

/-- A state of the process, with its site. -/
structure OpenState where
  site : Nat
  state : State RawFormat BucketDirect

/-- The bucket on what its file holds now. -/
def StorageBucket.attach (area : Bytes) (b : StorageBucket BucketDirect) : StorageBucket BucketDirect :=
  { b with priv := { b.priv with area := area } }

def Storage.attach (areas : List Bytes) (s : Storage BucketDirect) : Storage BucketDirect :=
  { s with buckets := areas.zipWith StorageBucket.attach s.buckets }

def Storage.areas (s : Storage BucketDirect) : List Bytes := s.buckets.map (·.priv.area)

/-- The state on what the files hold now. -/
def OpenState.attach (w : World) (o : OpenState) : State RawFormat BucketDirect :=
  { o.state with storage := o.state.storage.attach (w.media o.site) }

/-- The world after a call on a state of the site. -/
def World.after (w : World) (site : Nat) (env : Env) (areas : List Bytes) : World where
  env := env
  media := Function.update w.media site areas

section
variable (build : Build) (sites : Nat → Site) (findNode : Option CString → Option CString → Except Int Nat)

/-- `state_new_from_node` for the raw format without an HMAC, on direct buckets
that can all be opened. -/
def storageNewFromNode (w : World) (i : Nat) (readonly : Bool) : World × Except Int (CString × OpenState) :=
  match (sites i).backend with
  | .error err => (w, .error err)
  | .ok (name, stride) =>
    match stateFromNodeCreate (sites i).node with
    | none => ({ w with env := w.env.crash }, .error (-EFAULT))
    | some (s, ret) =>
      if ret ≠ 0 then (w, .error ret)
      else
        let buckets := (w.media i).map (bucketDirectCreate stride build.stateBackwardCompatible readonly)
        (w, .ok (name, ⟨i, stateNew (backendFormatRawCreate none) readonly s buckets⟩))

/-- `barebox-state` on direct buckets. -/
def storageLibrary : StateLibrary World Nat OpenState where
  alive w := w.env.alive
  findNode := findNode
  node i := (sites i).node
  newFromNode := storageNewFromNode build sites
  load auth w o :=
    let (env, st, ret) := stateDoLoad rawFormat directBackend (!auth) w.env (o.attach w)
    (w.after o.site env st.storage.areas, ⟨o.site, st⟩, ret)
  vars o := o.state.data.vars
  setVars o vars set :=
    { o with state := { o.state with data := { o.state.data with vars := vars }, dirty := set || o.state.dirty } }
  dirty o := o.state.dirty
  save w o :=
    let (env, st, ret) := stateSave rawFormat directBackend w.env (o.attach w)
    (w.after o.site env st.storage.areas, ⟨o.site, st⟩, ret)

/-! ## The library of cells -/

/-- For each site the payload that it holds, if any. -/
structure Cells where
  alive : Bool
  cells : Nat → Option Bytes

/-- A state of the process, without its storage. -/
structure CellState where
  site : Nat
  stride : Nat
  readonly : Bool
  data : StateData
  dirty : Bool

def CellState.load (c : Cells) (q : CellState) : Cells × CellState × Int :=
  match c.cells q.site with
  | none => (c, { q with dirty := true }, -ENOENT)
  | some buf =>
    match backendFormatRawUnpack buf q.data.vars with
    | none => ({ c with alive := false }, q, -EFAULT)
    | some (vars, ret) => (c, { q with data := { q.data with vars := vars }, dirty := decide (ret ≠ 0) }, ret)

/-- Nothing is written to a state that was opened for reading, and what has no
room is not written. -/
def CellState.save (c : Cells) (q : CellState) : Cells × CellState × Int :=
  if q.dirty = false then (c, q, 0)
  else
    match backendFormatRawPackData q.data.magic (backendFormatRawCreate none) q.data.vars with
    | none => ({ c with alive := false }, q, -EFAULT)
    | some buf =>
      if q.readonly then (c, { q with dirty := false }, 0)
      else if buf.length + 8 ≤ q.stride then
        ({ c with cells := Function.update c.cells q.site (some buf) }, { q with dirty := false }, 0)
      else (c, q, - EIO)

end

/-! ## What the buckets come to -/

/-- The payload in a bucket's file. -/
def heldAt (stride : UInt32) (area : Bytes) : Option Bytes := directPayload (bucketDirectCreate stride false false area)

/-- The data that the next load of these buckets uses. -/
def loadedData (magic : UInt32) (stride : UInt32) (areas : List Bytes) : Option Bytes :=
  (firstVerified (rawCheck magic (.ok none)) (areas.filterMap (heldAt stride))).map
    (passedOn (rawCheck magic (.ok none)))

/-- What each site's buckets come to, if its node is accepted. -/
def heldCells (sites : Nat → Site) (media : Nat → List Bytes) (i : Nat) : Option Bytes :=
  match (sites i).backend, stateFromNodeCreate (sites i).node with
  | .ok (_, stride), some (s, 0) => loadedData s.magic stride (media i)
  | _, _ => none

/-- A site whose states can be saved. -/
structure Site.Sound (site : Site) (name : CString) (stride : UInt32) (s : StateData) : Prop where
  backend : site.backend = .ok (name, stride)
  accepted : stateFromNodeCreate site.node = some (s, 0)
  room : 8 ≤ stride.toNat
  vars : s.vars ≠ []
  stop : ∀ sv ∈ s.vars, sv.stop < 2 ^ 16
  keep : ofFindProperty site.node (cstr "keep-previous-content") = none

/-! ## Loads -/

theorem heldAt_eq {stride : UInt32} {d : BucketDirect} (hmax : d.maxSize = stride.toNat) (hcompat : d.compat = false) :
    heldAt stride d.area = directPayload d := by
  obtain ⟨maxSize, compat, readonly, wrongMagic, area, hlt⟩ := d
  simp only at hmax hcompat
  subst hmax hcompat
  rfl

/-- A bucket that was opened for reading. -/
structure BucketDirect.ReadOnly (stride : UInt32) (d : BucketDirect) : Prop where
  maxSize : d.maxSize = stride.toNat
  compat : d.compat = false
  readonly : d.readonly = true

/-- Its file stays as it is, and no request is made. -/
theorem BucketDirect.ReadOnly.write {stride : UInt32} {d : BucketDirect} (h : d.ReadOnly stride) (env : Env) (p : Bytes) :
    ∃ ret, bucketDirectWrite env d p = (env, d, ret) := by
  have hmeta : ∀ n, directMeta n ≠ [] := fun n => by simp [directMeta, leBytes]
  rw [bucketDirectWrite]
  split
  · refine ⟨-1, ?_⟩
    simp [directWriteFull, hmeta, h.readonly]
  · exact ⟨_, by rw [h.compat, if_neg Bool.false_ne_true]⟩

/-- The data that verify passes on are as long as their header says. -/
theorem passedOn_dataLen {magic : UInt32} {p : Bytes} (hok : (rawCheck magic (.ok none) p).1 = 0) :
    16 + (BackendRawHeader.parse (passedOn (rawCheck magic (.ok none)) p)).dataLen =
      (passedOn (rawCheck magic (.ok none)) p).length := by
  obtain ⟨d, n, -, hn, hacc⟩ := (rawCheck_eq_zero (by simp)).1 ((raw_plain magic).passed p hok)
  have := hacc.len
  omega

/-- Between a state of the process and the one that the cells give. -/
structure StorageRelated (sites : Nat → Site) (counts : Nat → Nat) (o : OpenState) (q : CellState) : Prop where
  site : o.site = q.site
  data : o.state.data = q.data
  dirty : o.state.dirty = q.dirty
  algo : o.state.format.algo = none
  keep : o.state.keepPrevContent = false
  readonly : o.state.storage.readonly = q.readonly
  count : o.state.storage.buckets.length = counts q.site
  sound : ∃ name stride s, (sites q.site).Sound name stride s ∧ stride.toNat = q.stride ∧ q.data.magic = s.magic ∧
    SamePlaces s.vars q.data.vars
  writable : q.readonly = false → ∀ b ∈ o.state.storage.buckets, b.priv.Writable q.stride

/-- Between what is outside the process and the cells. -/
structure WorldRelated (sites : Nat → Site) (counts : Nat → Nat) (w : World) (c : Cells) : Prop where
  alive : w.env.alive = c.alive
  clean : c.alive = true → w.env.Clean
  counts : ∀ i, (w.media i).length = counts i
  cells : c.cells = heldCells sites w.media

section
variable {sites : Nat → Site} {counts : Nat → Nat}

theorem heldCells_sound {media : Nat → List Bytes} {i : Nat} {name : CString} {stride : UInt32} {s : StateData}
    (h : (sites i).Sound name stride s) : heldCells sites media i = loadedData s.magic stride (media i) := by
  simp only [heldCells, h.backend, h.accepted]

theorem heldCells_update {media : Nat → List Bytes} {i : Nat} {areas : List Bytes} {name : CString} {stride : UInt32}
    {s : StateData} (h : (sites i).Sound name stride s) :
    heldCells sites (Function.update media i areas) =
      Function.update (heldCells sites media) i (loadedData s.magic stride areas) := by
  funext j
  by_cases hj : j = i
  · subst hj
    rw [heldCells_sound h, Function.update_self, Function.update_self]
  · rw [Function.update_of_ne hj]
    simp only [heldCells, Function.update_of_ne hj]

theorem stateStorageWrite_direct {stride : Nat} (h8 : 8 ≤ stride) {s : Storage BucketDirect}
    (hs : ∀ b ∈ s.buckets, b.priv.Writable stride) (hne : s.buckets ≠ []) (hro : s.readonly = false) {env : Env}
    (henv : env.Clean) {p : Bytes} (hp : p.length < 2 ^ 31) {env' : Env} {s' : Storage BucketDirect} {ret : Int}
    {rets : List Int} (h : stateStorageWrite directDriver env s p = (env', s', ret, rets)) :
    env'.Clean ∧ s'.readonly = false ∧ s'.buckets.length = s.buckets.length ∧
      (∀ b ∈ s'.buckets, b.priv.Writable stride) ∧
      (p.length + 8 ≤ stride → ret = 0 ∧ ∀ b ∈ s'.buckets, heldPayload b = some p) ∧
      (¬ p.length + 8 ≤ stride → ret = - EIO ∧ s'.areas = s.areas) := by
  obtain ⟨henv', hall⟩ := sweep_forall₂ (f := writeBucket directDriver p) (I := Env.Clean)
    (R := fun b r => r.1.priv.Writable stride ∧ (p.length + 8 ≤ stride → heldPayload r.1 = some p ∧ r.2 = 0) ∧
      (¬ p.length + 8 ≤ stride → r.1.priv.area = b.priv.area ∧ r.2 = -EINVAL))
    (l := s.buckets) (s := env) (fun env b hb henv => by
      obtain ⟨hfits, hfull⟩ := directWrite_clean henv (hs b hb) h8 hp
      simp only [writeBucket]
      by_cases hroom : p.length + 8 ≤ stride
      · obtain ⟨env₁, d', hwr, henv₁, hd', hpay⟩ := hfits hroom
        have hwr' : directDriver.write env b.priv p = (env₁, d', 0) := hwr
        simp only [hwr']
        exact ⟨henv₁, hd', fun _ => ⟨hpay, trivial⟩, fun h => absurd hroom h⟩
      · have hwr' : directDriver.write env b.priv p = (env, b.priv, -EINVAL) := hfull hroom
        simp only [hwr']
        exact ⟨henv, hs b hb, fun h => absurd h hroom, fun _ => ⟨trivial, trivial⟩⟩) henv
  rw [stateStorageWrite, hro, if_neg Bool.false_ne_true] at h
  rcases hsw : sweep (writeBucket directDriver p) env s.buckets with ⟨env₁, written⟩
  rw [hsw] at h henv' hall
  cases h
  refine ⟨henv', rfl, ?_, fun b hb => ?_, fun hroom => ⟨?_, fun b hb => ?_⟩, fun hfull => ⟨?_, ?_⟩⟩
  · rw [List.length_map, hall.length_eq]
  · obtain ⟨r, hr, rfl⟩ := List.mem_map.1 hb
    obtain ⟨_, -, hw, -, -⟩ := forall₂_mem_right hall hr
    exact hw
  · obtain ⟨b, hb⟩ := List.exists_mem_of_ne_nil _ hne
    obtain ⟨r, hr, -, hwritten, -⟩ := forall₂_mem_left hall hb
    have hmem : (0 : Int) ∈ (written.map Prod.snd).filter (0 ≤ ·) :=
      List.mem_filter.2 ⟨List.mem_map.2 ⟨r, hr, (hwritten hroom).2⟩, by decide⟩
    exact if_pos (List.length_pos_of_mem hmem)
  · obtain ⟨r, hr, rfl⟩ := List.mem_map.1 hb
    obtain ⟨_, -, -, hwritten, -⟩ := forall₂_mem_right hall hr
    exact (hwritten hroom).1
  · have hnone : (written.map Prod.snd).filter (0 ≤ ·) = [] := List.filter_eq_nil_iff.2 fun x hx => by
      obtain ⟨r, hr, rfl⟩ := List.mem_map.1 hx
      obtain ⟨_, -, -, -, hkept⟩ := forall₂_mem_right hall hr
      rw [(hkept hfull).2]
      decide
    rw [hnone]
    rfl
  · have heq : List.Forall₂ (· = ·) (s.buckets.map (·.priv.area)) (written.map (·.1.priv.area)) :=
      List.forall₂_map_left_iff.2 (List.forall₂_map_right_iff.2 (hall.imp fun _ _ h => (h.2.2 hfull).1.symm))
    rw [List.forall₂_eq_eq_eq] at heq
    rw [Storage.areas, Storage.areas, List.map_map, heq]
    rfl

theorem RawFormat.eq_create {r : RawFormat} (h : r.algo = none) : r = backendFormatRawCreate none := by
  obtain ⟨algo, digest, same⟩ := r
  obtain rfl : algo = none := h
  cases digest with
  | none => rfl
  | some d =>
    have := same d rfl
    cases this

/-- What is packed is what the next load uses. -/
theorem packed_passedOn (magic : UInt32) {vars : List StateVariable} (hne : vars ≠ [])
    (hconf : variablesConflict vars = false) (hstop : ∀ sv ∈ vars, sv.stop < 2 ^ 16) :
    ∃ buf, backendFormatRawPackData magic (backendFormatRawCreate none) vars = some buf ∧ buf.length < 2 ^ 31 ∧
      (rawCheck magic (.ok none) buf).1 = 0 ∧ passedOn (rawCheck magic (.ok none)) buf = buf ∧ ValuesStored vars buf := by
  obtain ⟨buf, hbuf⟩ := pack_isSome hne hconf hstop magic (backendFormatRawCreate none)
  obtain ⟨n, -, hacc, hlen, hvals⟩ := pack_restores hconf hbuf hstop
  have hn : buf.length = n := hlen
  have hcheck : rawCheck magic (.ok none) buf = (0, (n : Int)) := (rawCheck_eq_zero (by simp)).2 ⟨none, n, rfl, rfl, hacc⟩
  have hlt := parse_dataLen_lt buf
  have := hacc.len
  refine ⟨buf, hbuf, by omega, by rw [hcheck], ?_, hvals⟩
  rw [passedOn, hcheck, Int.toNat_natCast, ← hn, List.take_length]

/-- Buckets that all hold a payload that verifies come to it. -/
theorem loadedData_const {magic stride : UInt32} {areas : List Bytes} {buf : Bytes} (hne : areas ≠ [])
    (hall : ∀ area ∈ areas, heldAt stride area = some buf) (hok : (rawCheck magic (.ok none) buf).1 = 0)
    (hpass : passedOn (rawCheck magic (.ok none)) buf = buf) : loadedData magic stride areas = some buf := by
  cases areas with
  | nil => exact absurd rfl hne
  | cons area areas =>
    rw [loadedData, List.filterMap_cons_some (hall area (by simp)), firstVerified_pos hok, Option.map_some, hpass]

theorem zipWith_attach_areas : ∀ {areas : List Bytes} {bs : List (StorageBucket BucketDirect)},
    areas.length = bs.length → (areas.zipWith StorageBucket.attach bs).map (·.priv.area) = areas
  | [], _, _ => rfl
  | _ :: _, [], h => by cases h
  | area :: areas, b :: bs, h => by
    rw [List.zipWith_cons_cons, List.map_cons, zipWith_attach_areas (by simpa using h)]
    rfl

theorem mem_zipWith_attach {b : StorageBucket BucketDirect} : ∀ {areas : List Bytes}
    {bs : List (StorageBucket BucketDirect)}, b ∈ areas.zipWith StorageBucket.attach bs →
    ∃ area, ∃ b' ∈ bs, b = b'.attach area
  | [], _, h => by cases h
  | _ :: _, [], h => by cases h
  | area :: areas, b' :: bs, h => by
    rw [List.zipWith_cons_cons, List.mem_cons] at h
    rcases h with rfl | h
    · exact ⟨area, b', by simp, rfl⟩
    · obtain ⟨area', b'', hb, rfl⟩ := mem_zipWith_attach h
      exact ⟨area', b'', by simp [hb], rfl⟩

/-- On its files again, a state is what it was. -/
theorem StorageRelated.attach {o : OpenState} {q : CellState} (h : StorageRelated sites counts o q) {w : World}
    (hw : ∀ i, (w.media i).length = counts i) : StorageRelated sites counts ⟨o.site, o.attach w⟩ q := by
  refine ⟨h.site, h.data, h.dirty, h.algo, h.keep, h.readonly, ?_, h.sound, fun hro b hb => ?_⟩
  · show ((w.media o.site).zipWith StorageBucket.attach o.state.storage.buckets).length = counts q.site
    rw [List.length_zipWith, h.count, h.site, hw, Nat.min_self]
  · obtain ⟨area, b', hb', rfl⟩ := mem_zipWith_attach hb
    have := h.writable hro b' hb'
    exact ⟨this.maxSize, this.compat, this.readonly⟩

theorem StorageRelated.areas {o : OpenState} {q : CellState} (h : StorageRelated sites counts o q) {w : World}
    (hw : ∀ i, (w.media i).length = counts i) : (o.attach w).storage.areas = w.media o.site :=
  zipWith_attach_areas (by rw [hw, h.count, h.site])

/-- A call that leaves the files as they are leaves the world as it is. -/
theorem World.after_same (w : World) (site : Nat) : w.after site w.env (w.media site) = w := by
  rw [World.after, Function.update_eq_self]

/-- The world when only the files of one site are others. -/
theorem WorldRelated.after {w : World} {c : Cells} (hw : WorldRelated sites counts w c) {i : Nat} {name : CString}
    {stride : UInt32} {s : StateData} (hs : (sites i).Sound name stride s) {env : Env} (henv : env.Clean)
    (areas : List Bytes) (hlen : areas.length = counts i) (halive : c.alive = true) :
    WorldRelated sites counts (w.after i env areas)
      { c with cells := Function.update c.cells i (loadedData s.magic stride areas) } := by
  refine ⟨henv.1.trans halive.symm, fun _ => henv, fun j => ?_, ?_⟩
  · show (Function.update w.media i areas j).length = counts j
    by_cases hj : j = i
    · subst hj
      rw [Function.update_self, hlen]
    · rw [Function.update_of_ne hj, hw.counts]
  · rw [World.after, heldCells_update hs, hw.cells]

/-- **A save of buckets is a save of the cell.** -/
theorem StorageRelated.save {o : OpenState} {q : CellState} {w : World} {c : Cells} (hcounts : ∀ i, 0 < counts i)
    (ho : StorageRelated sites counts o q) (hw : WorldRelated sites counts w c) (halive : c.alive = true) :
    let r := stateSave rawFormat directBackend w.env (o.attach w)
    WorldRelated sites counts (w.after o.site r.1 r.2.1.storage.areas) (q.save c).1 ∧
      StorageRelated sites counts ⟨o.site, r.2.1⟩ (q.save c).2.1 ∧ r.2.2 = (q.save c).2.2 := by
  have ha := ho.attach (w := w) hw.counts
  have hareas := ho.areas (w := w) hw.counts
  have hclean := hw.clean halive
  obtain ⟨name, stride, s, hsound, hstride, hmagic, hplaces⟩ := ho.sound
  have hsite : o.site = q.site := ho.site
  generalize o.attach w = st at ha hareas
  have hdirty : st.dirty = q.dirty := ha.dirty
  have hdata : st.data = q.data := ha.data
  have hkeep : st.keepPrevContent = false := ha.keep
  have hro : st.storage.readonly = q.readonly := ha.readonly
  have hcount : st.storage.buckets.length = counts q.site := ha.count
  simp only [stateSave, CellState.save, hdirty]
  by_cases hd : q.dirty = false
  · rw [if_pos hd, if_pos hd, hareas, World.after_same]
    exact ⟨hw, ha, rfl⟩
  rw [if_neg hd, if_neg hd]
  have hne : q.data.vars ≠ [] := fun hnil => hsound.vars (List.eq_nil_of_length_eq_zero (by
    have := hplaces.length_eq
    rwa [hnil] at this))
  have hconf : variablesConflict q.data.vars = false := by
    obtain ⟨_, -, -, -, hconf⟩ := stateFromNodeCreate_accepted hsound.accepted
    rwa [← hplaces.conflict]
  obtain ⟨buf, hbuf, hlt, hok, hpass, -⟩ := packed_passedOn q.data.magic hne hconf
    ((hplaces.stop_iff (· < 2 ^ 16)).1 hsound.stop)
  have hpack : rawFormat.pack st.format st.data = some (backendFormatRawCreate none, .ok buf) := by
    rw [rawFormat_pack, hdata, RawFormat.eq_create (r := st.format) ha.algo, backendFormatRawPack,
      if_neg (by simp [backendFormatRawCreate]), hbuf]
    rfl
  simp only [hpack, hbuf, stateSaveBuf, hkeep, Bool.false_eq_true, false_and, if_false]
  rcases hwr : stateStorageWrite directBackend.toDriver w.env st.storage buf with ⟨env', storage', ret, rets⟩
  by_cases hread : q.readonly = true
  · rw [stateStorageWrite, hro, hread, if_pos rfl] at hwr
    cases hwr
    simp only [hread, if_true, hareas, World.after_same]
    exact ⟨hw, ⟨ha.site, ha.data, rfl, rfl, rfl, hro.trans hread, ha.count, ho.sound, fun h0 => absurd h0 (by simp)⟩, trivial⟩
  rw [Bool.not_eq_true] at hread
  have hpos : st.storage.buckets ≠ [] := List.ne_nil_of_length_pos (by rw [hcount]; exact hcounts q.site)
  obtain ⟨henv', hro', hlen', hw', hfits, hfull⟩ := stateStorageWrite_direct (hstride ▸ hsound.room) (ha.writable hread)
    hpos (hro.trans hread) hclean hlt hwr
  simp only [hread, Bool.false_eq_true, if_false]
  by_cases hroom : buf.length + 8 ≤ q.stride
  · obtain ⟨rfl, hall⟩ := hfits hroom
    have hloaded : loadedData s.magic stride storage'.areas = some buf := by
      refine loadedData_const ?_ (fun area harea => ?_) (hmagic ▸ hok) (hmagic ▸ hpass)
      · rw [Storage.areas]
        exact mt List.map_eq_nil_iff.1 (List.ne_nil_of_length_pos (by rw [hlen', hcount]; exact hcounts q.site))
      · obtain ⟨b, hb, rfl⟩ := List.mem_map.1 harea
        rw [heldAt_eq ((hw' b hb).maxSize.trans hstride.symm) (hw' b hb).compat]
        exact hall b hb
    have hafter := hw.after hsound henv' storage'.areas
      (by rw [Storage.areas, List.length_map, hlen', hcount]) halive
    rw [hloaded] at hafter
    simp only [hroom, if_true, hsite]
    exact ⟨hafter, ⟨rfl, ha.data, rfl, rfl, rfl, hro', hlen'.trans hcount, ho.sound, fun _ => hw'⟩, trivial⟩
  · obtain ⟨rfl, hkept⟩ := hfull hroom
    have hafter : WorldRelated sites counts (w.after o.site env' storage'.areas) c := by
      rw [hkept, hareas]
      refine ⟨henv'.1.trans halive.symm, fun _ => henv', ?_, ?_⟩
      · rw [World.after, Function.update_eq_self]
        exact hw.counts
      · rw [World.after, Function.update_eq_self]
        exact hw.cells
    simp only [hroom, if_false]
    exact ⟨hafter, ⟨ha.site, ha.data, by simp [ EIO], rfl, rfl, hro'.trans hread.symm, hlen'.trans hcount, ho.sound,
      fun _ => hw'⟩, trivial⟩

end

end DtUtils
