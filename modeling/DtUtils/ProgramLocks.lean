/-
Several processes that run `barebox-state` at a time. Built without
`lock-device-node` each of them has the lock file before its first `state_get`;
built with it, `state_new_from_node` locks the device of a state, and the lock
stays until the process is gone. It does not look at whether it got that lock
(`Client.goOn`).

Processes that get their locks behave as if each one had run by itself, in the
order in which they ended (`concurrent_serializable`), so that nothing is lost
that one of them saved (`concurrent_program`).
-/
import DtUtils.Lib.Locks
import DtUtils.ProgramRuns

namespace DtUtils
open Lib

/-! ## What a request touches -/

/-- Two calls come to the same, and nothing outside `H` changes, if the media are
the same in `H`. -/
structure Local (H : Set Nat) (w : World) {α : Type} (x x' : World × α) : Prop where
  out : x.2 = x'.2
  env : x.1.env = x'.1.env
  inside : ∀ i ∈ H, x.1.media i = x'.1.media i
  outside : ∀ i, i ∉ H → x.1.media i = w.media i

/-- The same world as far as one can see from `H`. -/
structure SameWithin (H : Set Nat) (w w' : World) : Prop where
  env : w.env = w'.env
  media : ∀ i ∈ H, w.media i = w'.media i

section
variable {H : Set Nat} {w w' : World}

theorem SameWithin.local (h : SameWithin H w w') {α : Type} (a : α) : Local H w (w, a) (w', a) :=
  ⟨rfl, h.env, h.media, fun _ _ => rfl⟩

theorem Local.map {α β : Type} {x x' : World × α} (h : Local H w x x') (f : α → β) :
    Local H w (x.1, f x.2) (x'.1, f x'.2) :=
  ⟨congrArg f h.out, h.env, h.inside, h.outside⟩

theorem SameWithin.after (h : SameWithin H w w') {i : Nat} (hi : i ∈ H) {α : Type} (env : Env) (areas : List Bytes) (a : α) :
    Local H w (w.after i env areas, a) (w'.after i env areas, a) := by
  refine ⟨rfl, rfl, fun j hj => ?_, fun j hj => ?_⟩
  · by_cases hji : j = i
    · subst hji
      simp only [World.after, Function.update_self]
    · simp only [World.after, Function.update_of_ne hji, h.media j hj]
  · have hji : j ≠ i := fun h => hj (h ▸ hi)
    simp only [World.after, Function.update_of_ne hji]

variable {build : Build} {sites : Nat → Site} {findNode : Option CString → Option CString → Except Int Nat}

variable (build sites findNode) in
theorem storage_load_local (h : SameWithin H w w') (auth : Bool) {o : OpenState} (ho : o.site ∈ H) :
    let lib := storageLibrary build sites findNode
    Local H w (lib.load auth w o) (lib.load auth w' o) ∧ (lib.load auth w o).2.1.site = o.site := by
  simp only [storageLibrary, OpenState.attach, h.media o.site ho, h.env]
  exact ⟨h.after ho _ _ _, trivial⟩

variable (build sites findNode) in
theorem storage_save_local (h : SameWithin H w w') {o : OpenState} (ho : o.site ∈ H) :
    let lib := storageLibrary build sites findNode
    Local H w (lib.save w o) (lib.save w' o) ∧ (lib.save w o).2.1.site = o.site := by
  simp only [storageLibrary, OpenState.attach, h.media o.site ho, h.env]
  exact ⟨h.after ho _ _ _, trivial⟩

variable (build) in
theorem storage_stateGet_local (h : SameWithin H w w') (prLevel : Int) {name dtb : Option CString} (readonly auth : Bool)
    (hfind : ∀ i x, findNode dtb name = .ok i → (sites i).backend = .ok x → i ∈ H) :
    let lib := storageLibrary build sites findNode
    Local H w (stateGet lib prLevel w name dtb readonly auth) (stateGet lib prLevel w' name dtb readonly auth) ∧
      ∀ text stateName st, (stateGet lib prLevel w name dtb readonly auth).2 = some (text, .ok (stateName, st)) →
        st.site ∈ H := by
  intro lib
  have hnodes : lib.findNode = findNode := rfl
  have hnode (i : Nat) : lib.node i = (sites i).node := rfl
  have hnew : lib.newFromNode = storageNewFromNode build sites := rfl
  simp only [stateGet, hnodes, hnode, hnew]
  cases hf : findNode dtb name with
  | error err => exact ⟨h.local _, by simp⟩
  | ok i =>
    simp only
    cases (if 6 < prLevel then ofPrintNodes 0 (sites i).node else some []) with
    | none => exact ⟨h.local _, by simp⟩
    | some text =>
      simp only [storageNewFromNode]
      cases hbackend : (sites i).backend with
      | error err => exact ⟨h.local _, by simp⟩
      | ok x =>
        obtain ⟨stateName, stride⟩ := x
        have hi : i ∈ H := hfind i _ hf hbackend
        simp only
        cases stateFromNodeCreate (sites i).node with
        | none => exact ⟨⟨rfl, by simp [h.env], h.media, fun _ _ => rfl⟩, by simp⟩
        | some x =>
          obtain ⟨s, ret⟩ := x
          simp only [h.media i hi]
          by_cases hret : ret ≠ 0
          · simp only [if_pos hret]
            exact ⟨h.local _, by simp⟩
          simp only [if_neg hret]
          have hload := storage_load_local build sites findNode h auth
            (o := ⟨i, stateNew (backendFormatRawCreate none) readonly s
              ((w'.media i).map (bucketDirectCreate stride build.stateBackwardCompatible readonly))⟩) hi
          refine ⟨hload.1.map fun r => some (text, Except.ok (stateName, r.1)), fun text' stateName' st hst => ?_⟩
          simp only [Option.some.injEq, Prod.mk.injEq, Except.ok.injEq] at hst
          obtain ⟨-, -, rfl⟩ := hst
          exact hload.2 ▸ hi

/-- The states that a request looks at are those of the process, and the one
that it opens. -/
structure Confined (sites : Nat → Site) (findNode : Option CString → Option CString → Except Int Nat) (H : Set Nat)
    (s : Settings) (states : List (StateEntry OpenState)) (rq : Request) : Prop where
  opened : ∀ entry ∈ states, entry.state.site ∈ H
  opens : ∀ name i x, rq = .stateGet name → findNode s.dtb name = .ok i → (sites i).backend = .ok x → i ∈ H

theorem mem_set_site {states : List (StateEntry OpenState)} (h : ∀ entry ∈ states, entry.state.site ∈ H) {i : Nat}
    {entry : StateEntry OpenState} (hentry : entry.state.site ∈ H) : ∀ e ∈ states.set i entry, e.state.site ∈ H := by
  intro e he
  rcases List.mem_or_eq_of_mem_set he with hmem | rfl
  · exact h e hmem
  · exact hentry

variable (build) in
/-- A request reads and writes the media of these states only. -/
theorem exec_local (h : SameWithin H w w') {s : Settings} {p : Process OpenState} {rq : Request}
    (hrq : Confined sites findNode H s p.states rq) :
    let lib := storageLibrary build sites findNode
    Local H w (rq.exec lib s w p) (rq.exec lib s w' p) ∧
      ∀ entry ∈ (rq.exec lib s w p).2.1.states, entry.state.site ∈ H := by
  intro lib
  have halive {x x' : World × Process OpenState × Option Ending} (hx : Local H w x x')
      (hsites : ∀ entry ∈ x.2.1.states, entry.state.site ∈ H) :
      Local H w (x.1, x.2.1, if lib.alive x.1 then x.2.2 else some .killed)
          (x'.1, x'.2.1, if lib.alive x'.1 then x'.2.2 else some .killed) ∧
        ∀ entry ∈ x.2.1.states, entry.state.site ∈ H := by
    have hlib : lib.alive x.1 = lib.alive x'.1 := congrArg Env.alive hx.env
    exact ⟨⟨by rw [hlib, hx.out], hx.env, hx.inside, hx.outside⟩, hsites⟩
  have hprint (text : Option Bytes) : Local H w (execPrint w p text) (execPrint w' p text) ∧
      ∀ entry ∈ (execPrint w p text).2.1.states, entry.state.site ∈ H := by
    cases text <;> exact ⟨h.local _, hrq.opened⟩
  cases rq with
  | stateGet name =>
    have hopens : Local H w (execStateGet lib s w p name) (execStateGet lib s w' p name) ∧
        ∀ entry ∈ (execStateGet lib s w p name).2.1.states, entry.state.site ∈ H := by
      have hget := storage_stateGet_local build h s.prLevel s.readonly s.auth fun i x hf hb => hrq.opens name i x rfl hf hb
      dsimp only at hget
      simp only [execStateGet, lib]
      rcases hr : stateGet (storageLibrary build sites findNode) s.prLevel w name s.dtb s.readonly s.auth with ⟨e, got⟩
      rcases hr' : stateGet (storageLibrary build sites findNode) s.prLevel w' name s.dtb s.readonly s.auth with
        ⟨e', got'⟩
      rw [hr, hr'] at hget
      obtain ⟨⟨hgot, henv, hin, hout⟩, hsite⟩ := hget
      obtain rfl : got = got' := hgot
      rcases got with _ | ⟨text, _ | ⟨stateName, st⟩⟩
      · exact ⟨⟨rfl, henv, hin, hout⟩, hrq.opened⟩
      · exact ⟨⟨rfl, henv, hin, hout⟩, hrq.opened⟩
      · refine ⟨⟨rfl, henv, hin, hout⟩, fun entry hmem => ?_⟩
        rcases List.mem_append.1 hmem with hmem | hmem
        · exact hrq.opened entry hmem
        · rw [List.mem_singleton.1 hmem]
          exact hsite text stateName st rfl
    exact halive hopens.1 hopens.2
  | dump => exact halive (hprint _).1 (hprint _).2
  | dumpShell => exact halive (hprint _).1 (hprint _).2
  | setGet sg =>
    have hself (x : Process OpenState × Option Ending) (hx : ∀ entry ∈ x.1.states, entry.state.site ∈ H) :
        Local H w (w, x) (w', x) ∧ ∀ entry ∈ x.1.states, entry.state.site ∈ H := ⟨h.local _, hx⟩
    have hset : Local H w (execSetGet lib w p sg) (execSetGet lib w' p sg) ∧
        ∀ entry ∈ (execSetGet lib w p sg).2.1.states, entry.state.site ∈ H := by
      simp only [execSetGet]
      rcases targetOf p.states sg.arg with ⟨i, arg⟩
      simp only
      cases hi : p.states[i]? with
      | none => exact hself _ hrq.opened
      | some entry =>
        have hentry := hrq.opened entry (List.mem_of_getElem? hi)
        simp only
        split
        · rcases stateGetVar (lib.vars entry.state) arg with _ | _ | val <;> exact hself _ hrq.opened
        · cases arg.1.dropWhile (· ≠ equalsSign) with
          | nil => exact hself _ hrq.opened
          | cons _ val =>
            simp only
            rcases stateSetVar (lib.vars entry.state) (CString.of (arg.1.takeWhile (· ≠ equalsSign)))
              (CString.of val) with _ | ⟨vars, set, ret⟩
            · exact hself _ hrq.opened
            · exact hself _ (mem_set_site hrq.opened hentry)
    exact halive hset.1 hset.2
  | save i =>
    have hsave : Local H w (execSave lib w p i) (execSave lib w' p i) ∧
        ∀ entry ∈ (execSave lib w p i).2.1.states, entry.state.site ∈ H := by
      simp only [execSave]
      cases hi : p.states[i]? with
      | none => exact ⟨h.local _, hrq.opened⟩
      | some entry =>
        have hentry := hrq.opened entry (List.mem_of_getElem? hi)
        have hs := storage_save_local build sites findNode h hentry
        simp only
        split
        · refine ⟨hs.1.map fun r => ({ p with states := p.states.set i { entry with state := r.1 } },
            if r.2 ≠ 0 then some (Ending.exit 1) else none), ?_⟩
          exact mem_set_site hrq.opened (hs.2 ▸ hentry)
        · exact ⟨h.local _, hrq.opened⟩
    exact halive hsave.1 hsave.2

end

/-! ## Clients -/

/-- What `flock` is called on. -/
inductive LockName
  /-- `/run/barebox-state.lock` -/
  | file
  | device (path : Nat)
deriving DecidableEq

/-- The answers of `open_exclusive` that are left after a lock. -/
def LockName.left : LockName → List Bool → List Bool
  | .file, exclusive => exclusive
  | .device _, exclusive => exclusive.tail

theorem LockName.mem_left {r : LockName} {exclusive : List Bool} {got : Bool} (h : got ∈ r.left exclusive) :
    got ∈ exclusive := by
  cases r with
  | file => exact h
  | device path => exact List.mem_of_mem_tail h

/-- The device of each site that `open_exclusive` locks, unless
`state_new_from_node` fails before. -/
structure Devices (sites : Nat → Site) where
  device : Nat → Option Nat
  found : ∀ {i x}, (sites i).backend = .ok x → (device i).isSome

inductive Task
  | flock (r : LockName)
  | request (rq : Request)

/-- A command line, whether the lock file is locked, and which calls of
`open_exclusive` get their lock, in their order; those behind the list do. -/
structure Command where
  prog : CString
  options : List ProgOption
  operands : List CString
  locked : Bool
  exclusive : List Bool

/-- All locks that are asked for are got. -/
def Command.Exclusive (build : Build) (cmd : Command) : Prop :=
  build.lockDeviceNode = true → ∀ got ∈ cmd.exclusive, got = true

section
variable (build : Build) {sites : Nat → Site} (findNode : Option CString → Option CString → Except Int Nat)
  (devices : Devices sites)

/-- The lock that is to be held by who uses the buckets of a site. -/
def guardOf (i : Nat) : LockName :=
  if build.lockDeviceNode then
    match devices.device i with
    | some path => .device path
    | none => .file
  else .file

/-- The device of the state that a name is for. -/
def deviceOf (s : Settings) (name : Option CString) : Option Nat :=
  match findNode s.dtb name with
  | .ok i => devices.device i
  | .error _ => none

/-- What a request locks before it opens a state. -/
def lockTasks (s : Settings) : Request → List Task
  | .stateGet name => ((deviceOf findNode devices s name).map fun path => .flock (.device path)).toList
  | _ => []

/-- What `main` does after the options. -/
def Settings.tasks (s : Settings) : List Task :=
  if build.lockDeviceNode then s.requests.flatMap fun rq => lockTasks findNode devices s rq ++ [.request rq]
  else .flock .file :: s.requests.map .request

/-- No state is opened without its lock. -/
def Covered (s : Settings) : List LockName → List Task → Prop
  | _, [] => True
  | locks, .flock r :: todo => Covered s (r :: locks) todo
  | locks, .request rq :: todo => (∀ name i x, rq = .stateGet name → findNode s.dtb name = .ok i →
      (sites i).backend = .ok x → guardOf build devices i ∈ locks) ∧ Covered s locks todo

/-- A process that runs `main`, with the locks that it has. -/
structure Client where
  env : Env
  settings : Settings
  todo : List Task
  process : Process OpenState
  locks : List LockName
  exclusive : List Bool
  ending : Option Ending

/-- The states of the process, and those that it will open, are under its
locks. -/
structure Client.Guarded (c : Client) : Prop where
  covered : Covered build findNode devices c.settings c.locks c.todo
  opened : ∀ entry ∈ c.process.states, guardOf build devices entry.state.site ∈ c.locks
  exclusive : ∀ path, .flock (.device path) ∈ c.todo → ∀ got ∈ c.exclusive, got = true

theorem covered_requests (hlock : build.lockDeviceNode = false) (s : Settings) {locks : List LockName}
    (hfile : .file ∈ locks) : ∀ rs : List Request, Covered build findNode devices s locks (rs.map .request)
  | [] => trivial
  | rq :: rs => by
    refine ⟨fun name i x _ _ _ => ?_, covered_requests hlock s hfile rs⟩
    rw [guardOf, hlock]
    exact hfile

theorem covered_lockTasks (hlock : build.lockDeviceNode = true) (s : Settings) : ∀ (rs : List Request) (locks : List LockName),
    Covered build findNode devices s locks (rs.flatMap fun rq => lockTasks findNode devices s rq ++ [.request rq])
  | [], _ => trivial
  | rq :: rs, locks => by
    have hrest := covered_lockTasks hlock s rs
    rw [List.flatMap_cons, List.append_assoc, List.singleton_append]
    cases rq with
    | stateGet name =>
      have hopens (locks' : List LockName) (hdevice : ∀ path, deviceOf findNode devices s name = some path →
          .device path ∈ locks') : ∀ name' i x, Request.stateGet name = .stateGet name' →
          findNode s.dtb name' = .ok i → (sites i).backend = .ok x → guardOf build devices i ∈ locks' := by
        intro name' i x hname hfind hbackend
        obtain rfl : name = name' := Request.stateGet.inj hname
        obtain ⟨path, hpath⟩ := Option.isSome_iff_exists.1 (devices.found hbackend)
        simp only [guardOf, hlock, hpath, if_true]
        exact hdevice path (by simp only [deviceOf, hfind, hpath])
      cases hpath : deviceOf findNode devices s name with
      | none =>
        simp only [lockTasks, hpath]
        exact ⟨hopens locks (by simp [hpath]), hrest locks⟩
      | some path =>
        simp only [lockTasks, hpath]
        exact ⟨hopens _ (by simp [hpath]), hrest _⟩
    | _ => exact ⟨nofun, hrest locks⟩

theorem tasks_covered (s : Settings) : Covered build findNode devices s [] (s.tasks build findNode devices) := by
  rw [Settings.tasks]
  split
  · next hlock => exact covered_lockTasks build findNode devices hlock s s.requests []
  · next hlock =>
    exact covered_requests build findNode devices (Bool.not_eq_true _ ▸ hlock) s (List.mem_singleton_self _) s.requests

/-- The process once it has read its options. -/
def Client.start (cmd : Command) (env : Env) : Client :=
  match parseOptions build cmd.prog cmd.options cmd.operands with
  | .error (out, ending) => ⟨env, {}, [], { out := out }, [], cmd.exclusive, some ending⟩
  | .ok s =>
    if build.lockDeviceNode ∨ cmd.locked then
      ⟨env, s, s.tasks build findNode devices, {}, [], cmd.exclusive, none⟩
    else ⟨env, s, [], {}, [], cmd.exclusive, some (.exit 1)⟩

theorem Client.start_guarded {cmd : Command} (hcmd : cmd.Exclusive build) (env : Env) :
    (Client.start build findNode devices cmd env).Guarded build findNode devices := by
  rw [Client.start]
  split
  · exact ⟨trivial, nofun, nofun⟩
  · next s _ =>
    split
    · refine ⟨tasks_covered build findNode devices s, nofun, fun path hpath => ?_⟩
      cases hlock : build.lockDeviceNode with
      | true => exact hcmd hlock
      | false => simp [Settings.tasks, hlock] at hpath
    · exact ⟨trivial, nofun, nofun⟩

end

/-- What was printed, and how the process ends if it is not killed. -/
def Client.result (c : Client) : Bytes × Ending := (c.process.out, c.ending.getD (.exit 0))

def Client.flock (c : Client) (r : LockName) (todo : List Task) : Client :=
  { c with locks := r :: c.locks, todo := todo, exclusive := r.left c.exclusive }

/-- `open_exclusive` fails, which `state_new_from_node` does not look at. -/
def Client.goOn (c : Client) (todo : List Task) : Client := { c with todo := todo, exclusive := c.exclusive.tail }

section
variable (build : Build) (sites : Nat → Site) (findNode : Option CString → Option CString → Except Int Nat)

/-- A request on what the media hold now. -/
def Client.request (c : Client) (rq : Request) (todo : List Task) (media : Nat → List Bytes) :
    (Nat → List Bytes) × Client :=
  let r := rq.exec (storageLibrary build sites findNode) c.settings ⟨c.env, media⟩ c.process
  (r.1.media, ⟨r.1.env, c.settings, todo, r.2.1, c.locks, c.exclusive, r.2.2⟩)

def Client.move (c : Client) : Move Nat LockName (List Bytes) Client :=
  match c.ending, c.todo with
  | some _, _ | none, [] => .done
  | none, .flock .file :: todo => .lock .file (c.flock .file todo)
  | none, .flock (.device path) :: todo =>
    if c.exclusive.headD true then .lock (.device path) (c.flock (.device path) todo)
    else .act fun media => (media, c.goOn todo)
  | none, .request rq :: todo => .act (c.request build sites findNode rq todo)

/-- `main` under locks. -/
def clientMachine : Machine Nat LockName (List Bytes) Client where
  move := Client.move build sites findNode
  held c := {r | r ∈ c.locks}

variable {build sites findNode} {c : Client}

theorem Client.move_lock {next : Client} {r : LockName} (h : (clientMachine build sites findNode).move c = .lock r next) :
    ∃ todo, c.todo = .flock r :: todo ∧ c.ending = none ∧ next = c.flock r todo ∧
      (∀ path, r = .device path → c.exclusive.headD true = true) := by
  simp only [clientMachine, Client.move] at h
  split at h
  · cases h
  · cases h
  · next todo hending htodo =>
    cases h
    exact ⟨todo, htodo, hending, rfl, nofun⟩
  · next path todo hending htodo =>
    split at h
    · next hgot =>
      cases h
      exact ⟨todo, htodo, hending, rfl, fun _ _ => hgot⟩
    · cases h
  · cases h

/-- What a process does without asking for a lock: it makes a request, or goes on
without the lock that it did not get. -/
theorem Client.move_act {f : (Nat → List Bytes) → (Nat → List Bytes) × Client}
    (h : (clientMachine build sites findNode).move c = .act f) : c.ending = none ∧
      ((∃ rq todo, c.todo = .request rq :: todo ∧ f = c.request build sites findNode rq todo) ∨
        ∃ path todo, c.todo = .flock (.device path) :: todo ∧ c.exclusive.headD true = false ∧
          f = fun media => (media, c.goOn todo)) := by
  simp only [clientMachine, Client.move] at h
  split at h
  · cases h
  · cases h
  · cases h
  · next path todo hending htodo =>
    split at h
    · cases h
    · next hgot =>
      cases h
      exact ⟨hending, .inr ⟨path, todo, htodo, by simpa using hgot, rfl⟩⟩
  · next rq todo hending htodo =>
    cases h
    exact ⟨hending, .inl ⟨rq, todo, htodo, rfl⟩⟩

theorem Client.move_done (h : (clientMachine build sites findNode).move c = .done) : c.ending = none → c.todo = [] := by
  intro hnone
  simp only [clientMachine, Client.move] at h
  split at h
  · next hending => cases hnone.symm.trans hending
  · next htodo => exact htodo
  · cases h
  · split at h <;> cases h
  · cases h

end

section
variable {build : Build} {sites : Nat → Site} {findNode : Option CString → Option CString → Except Int Nat}
  {devices : Devices sites}

/-- The sites whose locks the process has. -/
def Client.lockedSites (build : Build) (devices : Devices sites) (c : Client) : Set Nat :=
  {i | guardOf build devices i ∈ c.locks}

theorem Client.Guarded.confined {c : Client} (h : c.Guarded build findNode devices) {rq : Request} {todo : List Task}
    (htodo : c.todo = .request rq :: todo) :
    Confined sites findNode (c.lockedSites build devices) c.settings c.process.states rq := by
  have hcovered := h.covered
  rw [htodo] at hcovered
  exact ⟨h.opened, hcovered.1⟩

theorem headD_true {answers : List Bool} (h : ∀ got ∈ answers, got = true) : answers.headD true = true := by
  cases answers with
  | nil => rfl
  | cons got rest => exact h got List.mem_cons_self

/-- A process that got its locks makes requests only. -/
theorem Client.Guarded.act {c : Client} (h : c.Guarded build findNode devices)
    {f : (Nat → List Bytes) → (Nat → List Bytes) × Client} (hmove : (clientMachine build sites findNode).move c = .act f) :
    ∃ rq todo, c.todo = .request rq :: todo ∧ f = c.request build sites findNode rq todo := by
  rcases (Client.move_act hmove).2 with hrequest | ⟨path, todo, htodo, hfailed, -⟩
  · exact hrequest
  · have hgot := headD_true (h.exclusive path (htodo ▸ List.mem_cons_self))
    rw [hfailed] at hgot
    cases hgot

variable (build findNode devices) in
/-- The locks confine the processes that get them. -/
theorem clientMachine_confined : (clientMachine build sites findNode).Confined (guardOf build devices)
    (Client.Guarded build findNode devices) where
  lock := by
    intro c r next hmove h
    obtain ⟨todo, htodo, -, rfl, -⟩ := Client.move_lock hmove
    have hcovered := h.covered
    rw [htodo] at hcovered
    refine ⟨hcovered, fun entry hentry => List.mem_cons_of_mem _ (h.opened entry hentry), fun path hpath got hgot => ?_⟩
    exact h.exclusive path (htodo ▸ List.mem_cons_of_mem _ hpath) got (LockName.mem_left hgot)
  act := by
    intro c f hmove h media
    obtain ⟨rq, todo, htodo, rfl⟩ := h.act hmove
    have hcovered := h.covered
    rw [htodo] at hcovered
    refine ⟨hcovered.2, ?_, fun path hpath => h.exclusive path (htodo ▸ List.mem_cons_of_mem _ hpath)⟩
    exact (exec_local build (H := c.lockedSites build devices) ⟨rfl, fun _ _ => rfl⟩ (h.confined htodo)).2
  lock_held := by
    intro c r next hmove h
    obtain ⟨todo, htodo, -, rfl, -⟩ := Client.move_lock hmove
    ext r'
    simp [clientMachine, Client.flock]
  act_held := by
    intro c f hmove h media
    obtain ⟨rq, todo, htodo, rfl⟩ := h.act hmove
    rfl
  act_out := by
    intro c f hmove h media i hi
    obtain ⟨rq, todo, htodo, rfl⟩ := h.act hmove
    exact (exec_local build (w := ⟨_, media⟩) ⟨rfl, fun _ _ => rfl⟩ (h.confined htodo)).1.outside i hi
  act_in := by
    intro c f hmove h media media' hsame
    obtain ⟨rq, todo, htodo, rfl⟩ := h.act hmove
    have hwithin : SameWithin (c.lockedSites build devices) ⟨c.env, media⟩ ⟨c.env, media'⟩ := ⟨rfl, hsame⟩
    obtain ⟨⟨hout, henv, hin, -⟩, -⟩ := exec_local build hwithin (h.confined htodo)
    exact ⟨by simp only [Client.request, hout, henv], hin⟩

variable (build findNode devices) in
/-- Several processes at a time, each with its command and its device answers. -/
def clientSystem {ι : Type} [DecidableEq ι] (cmds : ι → Command) (envs : ι → Env) (media₀ : Nat → List Bytes) :
    System (Shared ι Nat (List Bytes) Client) (ι × Action) :=
  (clientMachine build sites findNode).system (fun i => Client.start build findNode devices (cmds i) (envs i)) media₀

/-! ## What a process comes to -/

def Task.toRequest : Task → Option Request
  | .flock _ => none
  | .request rq => some rq

section
variable (build sites findNode)

/-- What comes of the process if no other one is there. -/
def Client.finish (c : Client) (media : Nat → List Bytes) : World × Bytes × Ending :=
  match c.ending with
  | some ending => (⟨c.env, media⟩, c.process.out, ending)
  | none => runRequests (storageLibrary build sites findNode) c.settings (c.todo.filterMap Task.toRequest) ⟨c.env, media⟩
    c.process

variable {build sites findNode}

theorem Client.finish_done {c : Client} (h : (clientMachine build sites findNode).move c = .done)
    (media : Nat → List Bytes) : c.finish build sites findNode media = (⟨c.env, media⟩, c.result) := by
  rw [Client.finish, Client.result]
  cases hending : c.ending with
  | some ending => rfl
  | none =>
    simp only [Client.move_done h hending, List.filterMap_nil, runRequests]
    rfl

/-- A move does not change what comes of it. -/
theorem Client.finish_alone (x : (Nat → List Bytes) × Client) :
    ((clientMachine build sites findNode).alone x).2.finish build sites findNode
        ((clientMachine build sites findNode).alone x).1 =
      x.2.finish build sites findNode x.1 := by
  obtain ⟨media, c⟩ := x
  simp only [Machine.alone]
  cases hm : (clientMachine build sites findNode).move c with
  | done => rfl
  | lock r next =>
    obtain ⟨todo, htodo, hending, rfl, -⟩ := Client.move_lock hm
    simp only [Client.finish, Client.flock, hending, htodo, List.filterMap_cons, Task.toRequest]
  | act f =>
    obtain ⟨hending, ⟨rq, todo, htodo, rfl⟩ | ⟨path, todo, htodo, -, rfl⟩⟩ := Client.move_act hm
    · simp only [Client.finish, hending, htodo, List.filterMap_cons, Task.toRequest, runRequests, Client.request]
      rcases rq.exec (storageLibrary build sites findNode) c.settings ⟨c.env, media⟩ c.process with
        ⟨w, p, _ | ending⟩ <;> rfl
    · simp only [Client.finish, Client.goOn, hending, htodo, List.filterMap_cons, Task.toRequest]

variable (build sites findNode) in
theorem Client.finish_iterate (n : Nat) (x : (Nat → List Bytes) × Client) :
    ((clientMachine build sites findNode).alone^[n] x).2.finish build sites findNode
        ((clientMachine build sites findNode).alone^[n] x).1 =
      x.2.finish build sites findNode x.1 := by
  induction n with
  | zero => rfl
  | succ n ih => rw [Function.iterate_succ_apply', Client.finish_alone, ih]

end

variable (build findNode devices) in
theorem tasks_requests (s : Settings) : (s.tasks build findNode devices).filterMap Task.toRequest = s.requests := by
  have hlocks (rq : Request) : (lockTasks findNode devices s rq).filterMap Task.toRequest = [] := by
    cases rq with
    | stateGet name =>
      simp only [lockTasks]
      cases deviceOf findNode devices s name <;> rfl
    | _ => rfl
  rw [Settings.tasks]
  split
  · rw [List.filterMap_flatMap]
    simp only [List.filterMap_append, hlocks, List.nil_append, List.filterMap_cons, Task.toRequest, List.filterMap_nil]
    exact List.flatMap_singleton' _
  · rw [List.filterMap_cons]
    simp only [Task.toRequest, List.filterMap_map]
    exact List.filterMap_some

/-- By itself a process does what `main` does. -/
theorem Client.start_finish (cmd : Command) (env : Env) (media : Nat → List Bytes) :
    (Client.start build findNode devices cmd env).finish build sites findNode media =
      bareboxStateMain (storageLibrary build sites findNode) build cmd.prog cmd.options cmd.operands cmd.locked
        ⟨env, media⟩ := by
  rw [Client.start, bareboxStateMain]
  cases parseOptions build cmd.prog cmd.options cmd.operands with
  | error x => rfl
  | ok s =>
    simp only
    split
    · simp only [Client.finish, tasks_requests]
      rfl
    · rfl

theorem Client.start_locks (cmd : Command) (env : Env) : (Client.start build findNode devices cmd env).locks = [] := by
  rw [Client.start]
  split
  · rfl
  · split <;> rfl

section
variable {ι : Type} [DecidableEq ι] {cmds : ι → Command} {envs : ι → Env} {media₀ : Nat → List Bytes}
  {ls : List (ι × Action)} {x : Shared ι Nat (List Bytes) Client}

/-- What the processes of the list leave, the last one first; each makes only as
many moves as it says there. -/
def leftBy (build : Build) (findNode : Option CString → Option CString → Except Int Nat) (devices : Devices sites)
    (cmds : ι → Command) (envs : ι → Env) (media₀ : Nat → List Bytes) : List (ι × Nat) → Nat → List Bytes :=
  (clientMachine build sites findNode).serial (fun i => Client.start build findNode devices (cmds i) (envs i)) media₀

theorem clients_inTurn (hlocks : ∀ i, (cmds i).Exclusive build)
    (hrun : (clientSystem build findNode devices cmds envs media₀).Run ls x) :
    (clientMachine build sites findNode).InTurn (fun i => Client.start build findNode devices (cmds i) (envs i)) media₀
      ls x := by
  refine (clientMachine_confined build findNode devices).inTurn
    (fun i => Client.start_guarded build findNode devices (hlocks i) (envs i)) (fun i => ?_) hrun
  ext r
  simp [clientMachine, Client.start_locks]

/-- A process that came to its end did what it does by itself. -/
theorem client_ended (h : (clientMachine build sites findNode).InTurn
      (fun i => Client.start build findNode devices (cmds i) (envs i)) media₀ ls x)
    {front back : List (ι × Nat)} {i : ι} {n : Nat} (hfront : endings ls = front ++ (i, n) :: back)
    (hdone : (clientMachine build sites findNode).move (x.procs i) = .done) :
    bareboxStateMain (storageLibrary build sites findNode) build (cmds i).prog (cmds i).options (cmds i).operands
        (cmds i).locked ⟨envs i, leftBy build findNode devices cmds envs media₀ back⟩ =
      (⟨(x.procs i).env, leftBy build findNode devices cmds envs media₀ ((i, n) :: back)⟩, (x.procs i).result) := by
  have hfinish := Client.finish_iterate build sites findNode n
    (leftBy build findNode devices cmds envs media₀ back, Client.start build findNode devices (cmds i) (envs i))
  have hend : x.procs i = ((clientMachine build sites findNode).alone^[n] (leftBy build findNode devices cmds envs
    media₀ back, Client.start build findNode devices (cmds i) (envs i))).2 := h.result hfront
  rw [← hend, Client.finish_done hdone, Client.start_finish] at hfinish
  exact hfinish.symm

theorem clients_quiet (h : (clientMachine build sites findNode).InTurn
      (fun i => Client.start build findNode devices (cmds i) (envs i)) media₀ ls x)
    (hquiet : ∀ i, x.ended i = false → (x.procs i).locks = []) :
    x.store = leftBy build findNode devices cmds envs media₀ (endings ls) := by
  refine h.quiet fun i hi => ?_
  ext r
  simp [clientMachine, hquiet i hi]

/-- **Processes do not see each other** that get their locks: whatever their order
and whoever is killed, each process that came to its end did what `barebox-state`
by itself does on what those left that ended before. -/
theorem concurrent_serializable (hlocks : ∀ i, (cmds i).Exclusive build)
    (hrun : (clientSystem build findNode devices cmds envs media₀).Run ls x) :
    ((∀ i, x.ended i = false → (x.procs i).locks = []) → x.store = leftBy build findNode devices cmds envs media₀ (endings ls)) ∧
      ∀ front i n back, endings ls = front ++ (i, n) :: back →
        (clientMachine build sites findNode).move (x.procs i) = .done →
        bareboxStateMain (storageLibrary build sites findNode) build (cmds i).prog (cmds i).options (cmds i).operands
            (cmds i).locked ⟨envs i, leftBy build findNode devices cmds envs media₀ back⟩ =
          (⟨(x.procs i).env, leftBy build findNode devices cmds envs media₀ ((i, n) :: back)⟩, (x.procs i).result) := by
  have hserial := clients_inTurn hlocks hrun
  exact ⟨fun hquiet => clients_quiet hserial hquiet, fun front i n back hfront hdone => client_ended hserial hfront hdone⟩

/-- The command and what came of it. -/
def Command.ran (cmd : Command) (result : Bytes × Ending) : Invocation :=
  ⟨cmd.prog, cmd.options, cmd.operands, cmd.locked, result.1, result.2⟩

/-- **No update is lost**: if nobody is killed and every lock is got, what processes
do at a time is a run of `barebox-state` one process after the other. -/
theorem concurrent_program (hlocks : ∀ i, (cmds i).Exclusive build)
    (hrun : (clientSystem build findNode devices cmds envs media₀).Run ls x)
    (hclean : ∀ i, (envs i).Clean) (hkill : ∀ l ∈ ls, l.2 ≠ .kill)
    (hquiet : ∀ i, x.ended i = false → (x.procs i).locks = []) :
    (programSystem build sites findNode media₀).Run ((endings ls).map fun e => (cmds e.1).ran (x.procs e.1).result)
      x.store := by
  have hserial := clients_inTurn hlocks hrun
  rw [clients_quiet hserial hquiet]
  -- Each end of the list is a run by itself.
  have hends : ∀ back front, endings ls = front ++ back → (programSystem build sites findNode media₀).Run
      (back.map fun e => (cmds e.1).ran (x.procs e.1).result) (leftBy build findNode devices cmds envs media₀ back) := by
    intro back
    induction back with
    | nil => exact fun _ _ => .init rfl
    | cons e back ih =>
      obtain ⟨i, n⟩ := e
      intro front hfront
      have hended : x.ended i = true := (hserial.ended i).2 (List.mem_map.2 ⟨(i, n), by simp [hfront], rfl⟩)
      have hdone := Machine.ended_done hrun hkill hended
      have hmain := client_ended hserial hfront hdone
      have hrest := ih (front ++ [(i, n)]) (by rw [hfront, List.append_assoc, List.singleton_append])
      exact hrest.step ⟨envs i, hclean i, congrArg (·.2) hmain, congrArg (·.1.media) hmain⟩
  exact hends (endings ls) [] rfl

/-- The one lock is still to be taken, or no lock is. -/
structure LockFirst (c : Client) : Prop where
  first : (∀ r, .flock r ∉ c.todo) ∨ c.locks = [] ∧ ∃ todo, c.todo = .flock .file :: todo ∧ ∀ r, .flock r ∉ todo

theorem lock_file_first (hlock : build.lockDeviceNode = false)
    (hrun : (clientSystem build findNode devices cmds envs media₀).Run ls x) (i : ι) : LockFirst (x.procs i) := by
  refine Machine.each (M := clientMachine build sites findNode) (Q := fun _ => LockFirst) (fun i => ?_) ?_ ?_ hrun i
  · rw [Client.start]
    split
    · exact ⟨.inl (by simp)⟩
    · next s _ =>
      split
      · refine ⟨.inr ⟨rfl, s.requests.map .request, ?_, by simp⟩⟩
        simp only [Settings.tasks, hlock, Bool.false_eq_true, if_false]
      · exact ⟨.inl (by simp)⟩
  · intro _ c r next hmove _ h
    obtain ⟨todo, htodo, -, rfl, -⟩ := Client.move_lock hmove
    rcases h.first with hno | ⟨-, todo', htodo', hno⟩
    · exact absurd (htodo ▸ List.mem_cons_self) (hno r)
    · obtain ⟨-, rfl⟩ := List.cons.inj (htodo.symm.trans htodo')
      exact ⟨.inl hno⟩
  · intro _ c f hmove media h
    obtain ⟨-, ⟨rq, todo, htodo, rfl⟩ | ⟨path, todo, htodo, -, rfl⟩⟩ := Client.move_act hmove
    · rcases h.first with hno | ⟨-, todo', htodo', -⟩
      · exact ⟨.inl fun r hr => hno r (htodo ▸ List.mem_cons_of_mem _ hr)⟩
      · cases htodo.symm.trans htodo'
    · rcases h.first with hno | ⟨-, todo', htodo', -⟩
      · exact absurd (htodo ▸ List.mem_cons_self) (hno (.device path))
      · cases htodo.symm.trans htodo'

/-- **The lock file does not block for ever**: as long as a process has not ended,
some process can go on. -/
theorem lock_file_progress (hlock : build.lockDeviceNode = false)
    (hrun : (clientSystem build findNode devices cmds envs media₀).Run ls x) {i : ι} (hi : x.ended i = false) :
    ∃ j a x', a ≠ .kill ∧ (clientSystem build findNode devices cmds envs media₀).step x (j, a) x' := by
  refine Machine.progress (fun j r next hmove => ?_) hi
  obtain ⟨todo, htodo, -, -⟩ := Client.move_lock hmove
  rcases (lock_file_first hlock hrun j).first with hno | ⟨hlocks, -⟩
  · exact absurd (htodo ▸ List.mem_cons_self) (hno r)
  · ext r
    simp [clientMachine, hlocks]

/-- The devices of the states that a command names, in order. -/
def devicesOf (findNode : Option CString → Option CString → Except Int Nat) (devices : Devices sites) (s : Settings) : List Nat :=
  s.stateNames.filterMap (deviceOf findNode devices s)

def Task.toLock : Task → Option LockName
  | .flock r => some r
  | .request _ => none

theorem tasks_locks (hlock : build.lockDeviceNode = true) (s : Settings) :
    (s.tasks build findNode devices).filterMap Task.toLock = (devicesOf findNode devices s).map .device := by
  have hrequest (rq : Request) : (lockTasks findNode devices s rq ++ [Task.request rq]).filterMap Task.toLock =
      (lockTasks findNode devices s rq).filterMap Task.toLock := by
    simp [Task.toLock]
  have hnone (rs : List Request) (h : ∀ rq ∈ rs, ∀ name, rq ≠ .stateGet name) :
      rs.flatMap (fun rq => (lockTasks findNode devices s rq).filterMap Task.toLock) = [] := by
    refine List.flatMap_eq_nil_iff.2 fun rq hrq => ?_
    cases rq with
    | stateGet name => exact absurd rfl (h _ hrq name)
    | _ => rfl
  have hnames (names : List (Option CString)) :
      (names.map Request.stateGet).flatMap (fun rq => (lockTasks findNode devices s rq).filterMap Task.toLock) =
        (names.filterMap (deviceOf findNode devices s)).map LockName.device := by
    induction names with
    | nil => rfl
    | cons name names ih =>
      rw [List.map_cons, List.flatMap_cons, ih, List.filterMap_cons]
      simp only [lockTasks]
      cases deviceOf findNode devices s name <;> rfl
  rw [Settings.tasks, if_pos hlock, List.filterMap_flatMap]
  simp only [hrequest]
  rw [Settings.requests, List.flatMap_append, List.flatMap_append, List.flatMap_append, List.flatMap_append, hnames,
    hnone, hnone, hnone, hnone, List.append_nil, List.append_nil, List.append_nil, List.append_nil, devicesOf]
  · simp
  · simp
  · split <;> simp
  · split <;> simp

/-- A request ends the program with an error, or not at all. -/
theorem exec_ending {E N S : Type} (lib : StateLibrary E N S) (s : Settings) (e : E) (p : Process S) (rq : Request) :
    (rq.exec lib s e p).2.2 ≠ some (.exit 0) := by
  have hexit {ending : Option Ending} (h : ending ≠ some (.exit 0)) (alive : Bool) :
      (if alive then ending else some .killed) ≠ some (.exit 0) := by
    cases alive <;> simp [h]
  have hprint (text : Option Bytes) : (execPrint e p text).2.2 ≠ some (.exit 0) := by
    cases text <;> simp [execPrint]
  have hret (ret : Int) : (if ret ≠ 0 then some (Ending.exit 1) else none) ≠ some (.exit 0) := by
    split <;> simp
  cases rq with
  | stateGet name =>
    have hget : (execStateGet lib s e p name).2.2 ≠ some (.exit 0) := by
      rw [execStateGet]
      split <;> simp
    exact hexit hget _
  | dump => exact hexit (hprint _) _
  | dumpShell => exact hexit (hprint _) _
  | setGet sg =>
    have hset : (execSetGet lib e p sg).2.2 ≠ some (.exit 0) := by
      simp only [execSetGet]
      split
      · simp
      split
      · split <;> simp
      split
      · simp
      split
      · simp
      · exact hret _
    exact hexit hset _
  | save i =>
    have hsave : (execSave lib e p i).2.2 ≠ some (.exit 0) := by
      simp only [execSave]
      split
      · simp
      split
      · exact hret _
      · simp
    exact hexit hsave _

variable (findNode devices) in
/-- What is locked, and what is still to be locked, is what the command names. -/
structure LocksOf (s : Settings) (c : Client) : Prop where
  nodup : c.locks.Nodup
  ending : c.ending ≠ some (.exit 0)
  all : c.ending = none → c.locks.reverse ++ c.todo.filterMap Task.toLock = (devicesOf findNode devices s).map .device
  exclusive : ∀ got ∈ c.exclusive, got = true

/-- **No two states on one device**: built with `lock-device-node`, a process that
got its locks and returns 0 named states whose devices are all different. With two
on one device it waits for itself. -/
theorem device_locks_distinct (hlock : build.lockDeviceNode = true)
    (hrun : (clientSystem build findNode devices cmds envs media₀).Run ls x) {i : ι} {s : Settings}
    (hlocks : (cmds i).Exclusive build)
    (hparse : parseOptions build (cmds i).prog (cmds i).options (cmds i).operands = .ok s)
    (hdone : (clientMachine build sites findNode).move (x.procs i) = .done) (hexit : (x.procs i).result.2 = .exit 0) :
    (devicesOf findNode devices s).Nodup := by
  have hlocksOf : ∀ j, j = i → LocksOf findNode devices s (x.procs j) := by
    refine Machine.each (M := clientMachine build sites findNode) (Q := fun j c => j = i → LocksOf findNode devices s c)
      (fun j => ?_) ?_ ?_ hrun
    · rintro rfl
      rw [Client.start, hparse]
      simp only [hlock, true_or, if_true]
      exact ⟨List.nodup_nil, nofun, fun _ => tasks_locks hlock s, hlocks hlock⟩
    · intro j c r next hmove hfree h hj
      obtain ⟨todo, htodo, hending, rfl, -⟩ := Client.move_lock hmove
      obtain ⟨hnodup, hno, hall, hgot⟩ := h hj
      refine ⟨List.nodup_cons.2 ⟨hfree, hnodup⟩, hno, fun _ => ?_, fun got h => hgot got (LockName.mem_left h)⟩
      rw [← hall hending, htodo]
      simp [Client.flock, Task.toLock]
    · intro j c f hmove media h hj
      obtain ⟨hnodup, hno, hall, hgot⟩ := h hj
      obtain ⟨hending, ⟨rq, todo, htodo, rfl⟩ | ⟨path, todo, htodo, hfailed, rfl⟩⟩ := Client.move_act hmove
      swap
      · cases hfailed.symm.trans (headD_true hgot)
      refine ⟨hnodup, exec_ending _ _ _ _ _, fun _ => ?_, hgot⟩
      rw [← hall hending, htodo, List.filterMap_cons]
      rfl
  obtain ⟨hnodup, hno, hall, -⟩ := hlocksOf i rfl
  have hending : (x.procs i).ending = none := by
    cases h : (x.procs i).ending with
    | none => rfl
    | some ending =>
      rw [Client.result, h] at hexit
      rw [h] at hno
      exact absurd (congrArg some hexit) hno
  have hlist := hall hending
  rw [Client.move_done hdone hending, List.filterMap_nil, List.append_nil] at hlist
  have hdistinct := hlist ▸ List.nodup_reverse.2 hnodup
  exact List.Nodup.of_map _ hdistinct

/-! ## A process that is let through -/

/-- What the process has and what it is still to lock are different locks. -/
def Client.Distinct (c : Client) : Prop := (c.locks.reverse ++ c.todo.filterMap Task.toLock).Nodup

variable (build sites findNode) in
theorem Client.Distinct.alone {c : Client} (h : c.Distinct) (media : Nat → List Bytes) (n : Nat) :
    ((clientMachine build sites findNode).alone^[n] (media, c)).2.Distinct := by
  refine alone_each (Q := Client.Distinct) (fun {c r next} hmove hc => ?_) (fun {c f} hmove media hc => ?_) h n
  · obtain ⟨todo, htodo, -, rfl, -⟩ := Client.move_lock hmove
    rw [Client.Distinct, htodo] at hc
    simpa [Client.Distinct, Client.flock, Task.toLock] using hc
  · obtain ⟨-, ⟨rq, todo, htodo, rfl⟩ | ⟨path, todo, htodo, -, rfl⟩⟩ := Client.move_act hmove
    · rw [Client.Distinct, htodo] at hc
      exact hc
    · rw [Client.Distinct, htodo, List.filterMap_cons] at hc
      exact hc.sublist (List.Sublist.append (List.Sublist.refl _) (List.sublist_cons_self _ _))

/-- Each move is one task less. -/
theorem Client.done_after : ∀ {n : Nat} {c : Client}, c.todo.length ≤ n → ∀ media,
    (clientMachine build sites findNode).move ((clientMachine build sites findNode).alone^[n] (media, c)).2 = .done
  | 0, c, h, media => by
    have htodo := List.eq_nil_of_length_eq_zero (Nat.le_zero.1 h)
    show (clientMachine build sites findNode).move c = .done
    cases hm : (clientMachine build sites findNode).move c with
    | done => rfl
    | lock r next =>
      obtain ⟨todo, htodo', -⟩ := Client.move_lock hm
      cases htodo.symm.trans htodo'
    | act f =>
      obtain ⟨-, ⟨rq, todo, htodo', -⟩ | ⟨path, todo, htodo', -⟩⟩ := Client.move_act hm <;>
        cases htodo.symm.trans htodo'
  | n + 1, c, h, media => by
    rw [Function.iterate_succ_apply, Machine.alone]
    cases hm : (clientMachine build sites findNode).move c with
    | done =>
      have hstay : (clientMachine build sites findNode).alone (media, c) = (media, c) := by
        simp only [Machine.alone, hm]
      rw [Function.iterate_fixed hstay]
      exact hm
    | lock r next =>
      obtain ⟨todo, htodo, -, rfl, -⟩ := Client.move_lock hm
      rw [htodo, List.length_cons] at h
      exact Client.done_after (c := c.flock r todo) (Nat.le_of_succ_le_succ h) media
    | act f =>
      obtain ⟨-, ⟨rq, todo, htodo, rfl⟩ | ⟨path, todo, htodo, -, rfl⟩⟩ := Client.move_act hm
      · rw [htodo, List.length_cons] at h
        exact Client.done_after (c := (c.request build sites findNode rq todo media).2) (Nat.le_of_succ_le_succ h) _
      · rw [htodo, List.length_cons] at h
        exact Client.done_after (c := c.goOn todo) (Nat.le_of_succ_le_succ h) media

/-- Where the locks are free, a process that does not wait for itself comes to its
end. -/
theorem client_finishes (hrun : (clientSystem build findNode devices cmds envs media₀).Run ls x) {i : ι}
    (hi : x.ended i = false) (hothers : ∀ j, j ≠ i → x.ended j = false → (x.procs j).locks = [])
    (hdistinct : (x.procs i).Distinct) :
    ∃ ls' x', (∀ l ∈ ls', l.2 ≠ .kill) ∧ (clientSystem build findNode devices cmds envs media₀).Run (ls' ++ ls) x' ∧
      (∃ n, endings (ls' ++ ls) = (i, n) :: endings ls) ∧ x'.ended = Function.update x.ended i true ∧
      (clientMachine build sites findNode).move (x'.procs i) = .done ∧ ∀ j, j ≠ i → x'.procs j = x.procs j := by
  obtain ⟨ls', hls', hrun'⟩ := Machine.solo hrun hi (fun j hj hactive => by
      ext r
      simp [clientMachine, hothers j hj hactive]) (fun m r next hmove => by
      obtain ⟨todo, htodo, -, -⟩ := Client.move_lock hmove
      have hnodup := hdistinct.alone build sites findNode x.store m
      rw [Client.Distinct, htodo, List.filterMap_cons] at hnodup
      exact fun hmem => (List.disjoint_of_nodup_append hnodup) (List.mem_reverse.2 hmem) List.mem_cons_self)
    (x.procs i).todo.length
  have hdone : (clientMachine build sites findNode).move (Function.update x.procs i
      ((clientMachine build sites findNode).alone^[(x.procs i).todo.length] (x.store, x.procs i)).2 i) = .done := by
    rw [Function.update_self]
    exact Client.done_after (Nat.le_refl _) x.store
  refine ⟨(i, .done) :: ls', _, ?_, hrun'.step ⟨hi, hdone, rfl⟩, ⟨_, congrArg (List.cons _) (endings_append
    (fun l hl => (hls' l hl).2) ls)⟩, rfl, hdone, fun j hj => Function.update_of_ne hj ..⟩
  rw [List.forall_mem_cons]
  exact ⟨nofun, fun l hl => (hls' l hl).2.2⟩

/-- A process that the locks do not hold up for ever. -/
theorem Client.start_distinct (cmd : Command) (env : Env) (hlocks : ∀ s, parseOptions build cmd.prog cmd.options
      cmd.operands = .ok s → build.lockDeviceNode = false ∨ (devicesOf findNode devices s).Nodup) :
    (Client.start build findNode devices cmd env).Distinct := by
  rw [Client.start]
  cases hparse : parseOptions build cmd.prog cmd.options cmd.operands with
  | error x => exact List.nodup_nil
  | ok s =>
    simp only
    split
    · show ((s.tasks build findNode devices).filterMap Task.toLock).Nodup
      cases hlock : build.lockDeviceNode with
      | true =>
        rw [tasks_locks hlock]
        refine ((hlocks s hparse).resolve_left (by simp [hlock])).map fun a b h => ?_
        cases h
        rfl
      | false =>
        have hno : (s.requests.map Task.request).filterMap Task.toLock = [] := by
          simp [List.filterMap_map, Function.comp_def, Task.toLock]
        simp only [Settings.tasks, hlock, Bool.false_eq_true, if_false, List.filterMap_cons, Task.toLock, hno]
        exact List.nodup_singleton _
    · exact List.nodup_nil

end

end

/-- All states are on one device. -/
def oneDevice : Devices countSites := ⟨fun _ => some 0, fun _ => rfl⟩

def lockBuild : Build := ⟨cstr "dt-utils", false, true⟩

/-- `true` sets the number that `false` reads. -/
def countCommand (b : Bool) : Command :=
  ⟨cstr "barebox-state", [if b then .set (cstr "count=5") else .get (cstr "count")], [], true, []⟩

theorem countCommand_exclusive (build : Build) (b : Bool) : (countCommand b).Exclusive build := nofun

theorem countClients (build : Build) (hlocks : ∀ b s, parseOptions build (countCommand b).prog (countCommand b).options
      (countCommand b).operands = .ok s →
      build.lockDeviceNode = false ∨ (devicesOf (fun _ _ => .ok 0) oneDevice s).Nodup) :
    ∃ ls x n m, (clientSystem build (fun _ _ => .ok 0) oneDevice countCommand (fun _ => .ok) blankMedia).Run ls x ∧
      (∀ l ∈ ls, l.2 ≠ .kill) ∧ endings ls = [(false, n), (true, m)] ∧ (∀ b, x.ended b = true) ∧
      ∀ b, (clientMachine build countSites fun _ _ => .ok 0).move (x.procs b) = .done := by
  have h₀ : (clientSystem build (fun _ _ => .ok 0) oneDevice countCommand (fun _ => .ok) blankMedia).Run []
      ⟨blankMedia, fun b => Client.start build (fun _ _ => .ok 0) oneDevice (countCommand b) .ok, fun _ => false⟩ := .init rfl
  have hdistinct (b : Bool) := Client.start_distinct (countCommand b) .ok (hlocks b)
  obtain ⟨ls₁, x₁, hkill₁, h₁, ⟨m, hm⟩, hended₁, hdone₁, hsame₁⟩ := client_finishes (i := true) h₀ rfl
    (fun j _ _ => Client.start_locks _ _) (hdistinct true)
  have hfalse := hsame₁ false (by decide)
  obtain ⟨ls₂, x₂, hkill₂, h₂, ⟨n, hn⟩, hended₂, hdone₂, hsame₂⟩ := client_finishes (i := false) h₁ (by rw [hended₁]; rfl)
    (fun j hj hactive => by
      obtain rfl : j = true := by simpa using hj
      rw [hended₁, Function.update_self] at hactive
      cases hactive)
    (hfalse ▸ hdistinct false)
  refine ⟨_, x₂, n, m, h₂, fun l hl => ?_, ?_, fun b => ?_, fun b => ?_⟩
  · simp only [List.append_nil, List.mem_append] at hl
    exact hl.elim (hkill₂ l) (hkill₁ l)
  · rw [hn, hm]
    rfl
  · rw [hended₂, hended₁]
    cases b <;> rfl
  · cases b with
    | false => exact hdone₂
    | true => rw [hsame₂ true (by decide)]; exact hdone₁

theorem concurrent_serializable_count : ∃ ls x n m,
    (clientSystem plainBuild (fun _ _ => .ok 0) oneDevice countCommand (fun _ => .ok) blankMedia).Run ls x ∧
      endings ls = [(false, n), (true, m)] ∧
      (x.procs true).result = (bareboxStateMain (storageLibrary plainBuild countSites fun _ _ => .ok 0) plainBuild
        (countCommand true).prog (countCommand true).options (countCommand true).operands true ⟨.ok, blankMedia⟩).2 := by
  obtain ⟨ls, x, n, m, hrun, -, hends, -, hdone⟩ := countClients plainBuild fun _ _ _ => .inl rfl
  have hmain := (concurrent_serializable (countCommand_exclusive _) hrun).2 [(false, n)] true m [] hends (hdone true)
  exact ⟨ls, x, n, m, hrun, hends, (congrArg (·.2) hmain).symm⟩

theorem concurrent_program_count : ∃ ls x,
    (clientSystem plainBuild (fun _ _ => .ok 0) oneDevice countCommand (fun _ => .ok) blankMedia).Run ls x ∧
      (programSystem plainBuild countSites (fun _ _ => .ok 0) blankMedia).Run
        [(countCommand false).ran (x.procs false).result, (countCommand true).ran (x.procs true).result] x.store := by
  obtain ⟨ls, x, n, m, hrun, hkill, hends, hended, -⟩ := countClients plainBuild fun _ _ _ => .inl rfl
  have h := concurrent_program (countCommand_exclusive _) hrun (fun _ => .ok) hkill (fun b hb => by rw [hended b] at hb; cases hb)
  rw [hends] at h
  exact ⟨ls, x, hrun, h⟩

theorem lock_file_progress_count : ∃ b a x x',
    a ≠ .kill ∧ (clientSystem plainBuild (fun _ _ => .ok 0) oneDevice countCommand (fun _ => .ok) blankMedia).step x (b, a) x' := by
  have h₀ : (clientSystem plainBuild (fun _ _ => .ok 0) oneDevice countCommand (fun _ => .ok) blankMedia).Run [] _ :=
    .init rfl
  obtain ⟨b, a, x', ha, hstep⟩ := lock_file_progress (i := true) rfl h₀ rfl
  exact ⟨b, a, _, x', ha, hstep⟩

theorem device_locks_distinct_count : ∃ s, parseOptions lockBuild (countCommand true).prog (countCommand true).options
    (countCommand true).operands = .ok s ∧ (devicesOf (fun _ _ => .ok 0) oneDevice s).Nodup := by
  have hone : ∀ b s, parseOptions lockBuild (countCommand b).prog (countCommand b).options (countCommand b).operands = .ok s →
      (devicesOf (fun _ _ => .ok 0) oneDevice s).Nodup := by
    intro b s h
    cases b <;> cases h <;> decide +kernel
  obtain ⟨ls, x, n, m, hrun, hkill, hends, -, hdone⟩ := countClients lockBuild fun b s h => .inr (hone b s h)
  have hfront : endings ls = [(false, n)] ++ (true, m) :: [] := hends
  have hmain := client_ended (clients_inTurn (countCommand_exclusive _) hrun) hfront (hdone true)
  have hexit : (bareboxStateMain (storageLibrary lockBuild countSites fun _ _ => .ok 0) lockBuild
      (countCommand true).prog (countCommand true).options (countCommand true).operands true ⟨.ok, blankMedia⟩).2.2 =
      .exit 0 := by decide +kernel
  refine ⟨_, rfl, device_locks_distinct rfl hrun (countCommand_exclusive _ true) rfl (hdone true) ?_⟩
  exact (congrArg (·.2.2) hmain).symm.trans hexit

end DtUtils
