/-
`main` of `barebox-state.c`. The options leave a list of requests to the states
(`Settings.requests`), which are made in order up to the first one that ends the
program.

What a request does to a state, and what `state_get` finds behind a name, is taken
from a `StateLibrary`: the library of the storage (`DtUtils.ProgramStore`), or
one that keeps a payload for each state.
-/
import DtUtils.PrintNodes
import DtUtils.ShellDump
import DtUtils.StateAccess

namespace DtUtils
open Lib

/-! ## Options -/

/-- An option as `getopt_long` returns it. -/
inductive ProgOption
  | help
  | version
  | get (arg : CString)
  | set (arg : CString)
  | force
  | dump
  | dumpShell
  | verbose
  | quiet
  | name (arg : CString)
  | input (arg : CString)
  /-- `?` or `:` -/
  | bad
deriving DecidableEq

/-- `struct state_set_get` -/
structure StateSetGet where
  arg : CString
  get : Bool
deriving DecidableEq

/-- What the loop over the options fills in. -/
structure Settings where
  sgList : List StateSetGet := []
  names : List CString := []
  readonly : Bool := true
  auth : Bool := true
  doDump : Bool := false
  doDumpShell : Bool := false
  prLevel : Int := 5
  dtb : Option CString := none
deriving DecidableEq

/-- What the build puts into the program. -/
structure Build where
  packageString : CString
  stateBackwardCompatible : Bool
  lockDeviceNode : Bool

/-- `usage` -/
def usage (name : CString) : Bytes :=
  (cstr "Usage: ").1 ++ name.1 ++ (cstr (" [OPTIONS]\n" ++
    "\n" ++
    "-g, --get <variable>                      get the value of a variable\n" ++
    "-s, --set <variable>=<value>              set the value of a variable\n" ++
    "-n, --name <name>                         specify the state to use (default=\"state\"). " ++
    "Multiple states are allowed.\n" ++
    "-i, --input <name>                        load the devicetree from a file instead of using the system devicetree.\n" ++
    "-d, --dump                                dump the state\n" ++
    "--dump-shell                              dump the state suitable for shell sourcing\n" ++
    "-f, --force                               do not check for state manipulation via the HMAC\n" ++
    "-v, --verbose                             increase verbosity\n" ++
    "-q, --quiet                               decrease verbosity\n" ++
    "--version                                 display version\n" ++
    "-h, --help                                this help\n")).1

/-- What `--version` prints. -/
def Build.version (build : Build) : Bytes :=
  let feature (enabled : Bool) := (cstr (if enabled then "enable" else "disable")).1
  build.packageString.1 ++ (cstr "\n").1 ++
  (cstr "Configured with build-time option '--").1 ++ feature build.stateBackwardCompatible ++
    (cstr "-state-backward-compatibility'.\n").1 ++
  (cstr "                                  '--").1 ++ feature build.lockDeviceNode ++ (cstr "-lock-device-node'.\n").1

/-- How the program ends. -/
inductive Ending
  | exit (code : Nat)
  /-- By an access outside an object. -/
  | killed
deriving DecidableEq

/-- One round of the loop over the options: the settings, or what is printed and
how the program ends. -/
def ProgOption.apply (build : Build) (prog : CString) (s : Settings) : ProgOption → Except (Bytes × Ending) Settings
  | .help => .error (usage prog, .exit 0)
  | .version => .error (build.version, .exit 0)
  | .get arg => .ok { s with sgList := s.sgList ++ [⟨arg, true⟩] }
  | .set arg => .ok { s with sgList := s.sgList ++ [⟨arg, false⟩], readonly := false }
  | .force => .ok { s with auth := false }
  | .dump => .ok { s with doDump := true }
  | .dumpShell => .ok { s with doDumpShell := true }
  | .verbose => .ok { s with prLevel := s.prLevel + 1 }
  | .quiet => .ok { s with prLevel := s.prLevel - 1 }
  | .name arg => .ok { s with names := s.names ++ [arg] }
  | .input arg => .ok { s with dtb := some arg }
  | .bad => .error ([], .exit 1)

/-- The options, and what is left of the command line behind them. -/
def parseOptions (build : Build) (prog : CString) (options : List ProgOption) (operands : List CString) :
    Except (Bytes × Ending) Settings := do
  let s ← options.foldlM (ProgOption.apply build prog) {}
  if operands = [] then return s else .error ([], .exit 1)

/-! ## The library -/

/-- What the program uses of the state library, with all that is outside the
process in `E`. -/
structure StateLibrary (E N S : Type) where
  /-- The process was stopped by an access outside an object. -/
  alive : E → Bool
  /-- `state_get` up to the node: from a device tree file or the system's device
  tree, by path or alias; without a name, `state` and then `/state`. -/
  findNode : Option CString → Option CString → Except Int N
  /-- The node's name, properties and children. -/
  node : N → DeviceNode
  /-- `state_new_from_node`: `name` of the state, and the state. -/
  newFromNode : E → N → Bool → E × Except Int (CString × S)
  /-- `state_load` or, without authentication, `state_load_no_auth`. -/
  load : Bool → E → S → E × S × Int
  vars : S → List StateVariable
  /-- The variables after `state_set_var`, and whether one was set. -/
  setVars : S → List StateVariable → Bool → S
  dirty : S → Bool
  save : E → S → E × S × Int

/-- An entry of `state_list`. -/
structure StateEntry (S : Type) where
  name : CString
  state : S

/-- `main` after the options, without what is outside the process. -/
structure Process (S : Type) where
  states : List (StateEntry S) := []
  /-- What was printed. -/
  out : Bytes := []

def Process.print {S : Type} (p : Process S) (text : Bytes) : Process S := { p with out := p.out ++ text }

/-! ## Requests -/

/-- One round of one of the loops in `main`. -/
inductive Request
  | stateGet (name : Option CString)
  | dump
  | dumpShell
  | setGet (sg : StateSetGet)
  | save (i : Nat)
deriving DecidableEq

/-- Without a name there is one state that has none. -/
def Settings.stateNames (s : Settings) : List (Option CString) := if s.names = [] then [none] else s.names.map some

/-- What `main` does after the options, in order. -/
def Settings.requests (s : Settings) : List Request :=
  s.stateNames.map .stateGet ++ (if s.doDump then [.dump] else []) ++ (if s.doDumpShell then [.dumpShell] else []) ++
    s.sgList.map .setGet ++ (List.range s.stateNames.length).map .save

/-- `__state_enum32_info` -/
def stateEnum32Info (names : List CString) : Bytes :=
  (cstr ", values=[").1 ++ (cstr ",").1.intercalate (names.map (·.1)) ++ (cstr "]").1

/-- `vtype->info`, where there is one. -/
def VarData.info : VarData → Bytes
  | .enum32 _ _ names => stateEnum32Info names
  | _ => []

/-- A line of `--dump`. -/
def dumpLine (nrStates : Nat) (prLevel : Int) (stateName : CString) (sv : StateVariable) : Option Bytes :=
  sv.data.get.map fun val =>
    (if 1 < nrStates then stateName.1 ++ [dot] else []) ++ sv.name.1 ++ equalsSign :: val.1 ++
      (if 5 < prLevel then (cstr ", type=").1 ++ sv.data.type.typeName.1 ++ sv.data.info else []) ++ [newline]

/-- The lines for all variables of all states. -/
def dumpStates {S : Type} (vars : S → List StateVariable) (line : CString → StateVariable → Option Bytes)
    (states : List (StateEntry S)) : Option Bytes := do
  let texts ← states.mapM fun e => (vars e.state).mapM (line e.name)
  return texts.flatten.flatten

/-- The first state whose name is `name`. -/
def findEntry {S : Type} (name : Bytes) (states : List (StateEntry S)) : Option Nat :=
  states.findIdx? (·.name.1 = name)

/-- Which state an argument is for, and what is left of it: the name in front of
the first dot, or else the first state. -/
def targetOf {S : Type} (states : List (StateEntry S)) (arg : CString) : Nat × CString :=
  let rest := arg.1.dropWhile (· ≠ dot)
  match rest, findEntry (arg.1.takeWhile (· ≠ dot)) states with
  | _ :: var, some i => (i, CString.of var)
  | _, _ => (0, arg)

section
variable {E N S : Type} (lib : StateLibrary E N S)

/-- `state_get`: what is printed, and the state with its name. -/
def stateGet (prLevel : Int) (e : E) (name dtb : Option CString) (readonly auth : Bool) :
    E × Option (Bytes × Except Int (CString × S)) :=
  match lib.findNode dtb name with
  | .error err => (e, some ([], .error err))
  | .ok n =>
    match if 6 < prLevel then ofPrintNodes 0 (lib.node n) else some [] with
    | none => (e, none)
    | some text =>
      match lib.newFromNode e n readonly with
      | (e, .error err) => (e, some (text, .error err))
      | (e, .ok (stateName, st)) =>
        let (e, st, _) := lib.load auth e st
        (e, some (text, .ok (stateName, st)))

/-- A request to one state. -/
def execSetGet (e : E) (p : Process S) (sg : StateSetGet) : E × Process S × Option Ending :=
  let (i, arg) := targetOf p.states sg.arg
  match p.states[i]? with
  | none => (e, p, some .killed)
  | some entry =>
    if sg.get then
      match stateGetVar (lib.vars entry.state) arg with
      | none => (e, p, some .killed)
      | some none => (e, p, some (.exit 1))
      | some (some val) => (e, p.print (val.1 ++ [newline]), none)
    else
      match arg.1.dropWhile (· ≠ equalsSign) with
      | [] => (e, p, some (.exit 1))
      | _ :: val =>
        match stateSetVar (lib.vars entry.state) (CString.of (arg.1.takeWhile (· ≠ equalsSign))) (CString.of val) with
        | none => (e, p, some .killed)
        | some (vars, set, ret) =>
          let st := lib.setVars entry.state vars set
          (e, { p with states := p.states.set i { entry with state := st } }, if ret ≠ 0 then some (.exit 1) else none)

/-- `state_get` in `main`, which appends the state to `state_list`. -/
def execStateGet (s : Settings) (e : E) (p : Process S) (name : Option CString) : E × Process S × Option Ending :=
  match stateGet lib s.prLevel e name s.dtb s.readonly s.auth with
  | (e, none) => (e, p, some .killed)
  | (e, some (text, .error _)) => (e, p.print text, some (.exit 1))
  | (e, some (text, .ok (stateName, st))) =>
    let p := p.print text
    (e, { p with states := p.states ++ [⟨name.getD stateName, st⟩] }, none)

def execSave (e : E) (p : Process S) (i : Nat) : E × Process S × Option Ending :=
  match p.states[i]? with
  | none => (e, p, some .killed)
  | some entry =>
    if lib.dirty entry.state then
      let (e, st, ret) := lib.save e entry.state
      (e, { p with states := p.states.set i { entry with state := st } }, if ret ≠ 0 then some (.exit 1) else none)
    else (e, p, none)

/-- The text is printed, or there is none and the program is stopped. -/
def execPrint (e : E) (p : Process S) : Option Bytes → E × Process S × Option Ending
  | none => (e, p, some .killed)
  | some text => (e, p.print text, none)

/-- One request, and how the program ends if it does. -/
def Request.exec (s : Settings) (e : E) (p : Process S) (r : Request) : E × Process S × Option Ending :=
  let (e, p, ending) :=
    match r with
    | .stateGet name => execStateGet lib s e p name
    | .dump => execPrint e p (dumpStates lib.vars (dumpLine s.stateNames.length s.prLevel) p.states)
    | .dumpShell => execPrint e p (dumpStates lib.vars dumpShellLine p.states)
    | .setGet sg => execSetGet lib e p sg
    | .save i => execSave lib e p i
  (e, p, if lib.alive e then ending else some .killed)

/-- The requests up to the first one that ends the program. -/
def runRequests (s : Settings) : List Request → E → Process S → E × Bytes × Ending
  | [], e, p => (e, p.out, .exit 0)
  | r :: rs, e, p =>
    match r.exec lib s e p with
    | (e, p, some ending) => (e, p.out, ending)
    | (e, p, none) => runRequests s rs e p

/-- `main` under the lock. -/
def mainLocked (s : Settings) (e : E) : E × Bytes × Ending := runRequests lib s s.requests e {}

/-- `main`; `locked` is whether the lock file could be opened and locked. -/
def bareboxStateMain (build : Build) (prog : CString) (options : List ProgOption) (operands : List CString) (locked : Bool) (e : E) :
    E × Bytes × Ending :=
  match parseOptions build prog options operands with
  | .error (out, ending) => (e, out, ending)
  | .ok s => if build.lockDeviceNode ∨ locked then mainLocked lib s e else (e, [], .exit 1)

end

end DtUtils
