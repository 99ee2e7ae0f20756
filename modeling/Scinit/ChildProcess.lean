/-
# The child process object

`src/ChildProcess.{h,cpp}` less what happens at the fork (`Scinit/Fork.lean`)
and the environment (`Scinit/Environment.lean`): the object, its constructor,
and how its state moves. A process waits for others through its `conditions`:
`propagate_dependencies` writes them once, `notify_of_state` reads them in
every round of the event loop, and `handle_process_event` ends the process.

Objects refer to one another through `weak_ptr`s. Here they live in a list
(`Objs`) and a `weak_ptr` is a place in it (`Ref`); locking it is reading
that place.

Key definitions: `ChildProcess`, `shouldWaitFor`, `propagateDependencies`,
`notifyOfState`, `handleProcessEvent`.
-/
import Mathlib

namespace Scinit

/-- A `std::string`: its bytes in order, each as the character of its number. -/
abbrev Text := List Char

/-- Stated once, so that every search for a text in a list decides it by the same proof. -/
instance : LawfulBEq Text := inferInstance

/-- A `std::map`. -/
abbrev Map (κ ν : Type) [Ord κ] := Std.ExtTreeMap κ ν

/-- `ChildProcessInterface::ProcessType`. -/
inductive ProcessType
  | oneshot
  | simple
  deriving DecidableEq, Repr

/-- `ChildProcessInterface::ProcessState`. -/
inductive ProcessState
  | blocked
  | ready
  | running
  | done
  | crashed
  | backoff
  deriving DecidableEq, Repr

/-- `ProcessHandlerInterface::ProcessEvent`. -/
inductive ProcessEvent
  | sighup
  | exit
  deriving DecidableEq, Repr

/-- `ProcessHandlerInterface::FDType`. -/
inductive FDType
  | stdout
  | stderr
  deriving DecidableEq, Repr

/-- The variables of an environment, `envObj["vars"]`: in byte order of their names. -/
abbrev Vars := Map Text Text

/-- What is thrown. `stdException` is any exception of a library (yaml-cpp,
spdlog, inja, the standard library), `crash` a use of a null pointer. -/
inductive Exn
  | childProcess (what : String)
  | processHandler
  | configParse (what : String)
  | stdException (what : String)
  | crash
  deriving DecidableEq, Repr

/-- Whether `catch (std::exception& e)` takes it. A handler takes only what
has `std::exception` as a public base, and `ChildProcessException`,
`ProcessHandlerException` and `ConfigParseException` are classes derived
from it without an access specifier, which is private. -/
def Exn.isStdException : Exn → Bool
  | .stdException _ => true
  | _ => false

/-- What the program finds on its host: `environ`, the user and group
databases, inja's rendering of a template, and whether it runs as PID 1. -/
structure Host where
  environ : List Text
  getpwuid : UInt32 → Option Text
  getpwnam : Text → Option UInt32
  getgrnam : Text → Option UInt32
  render : Text → Vars → Except String Text
  isPid1 : Bool

/-- What a configured program hands to the constructor, besides its id and
the handler. -/
structure Program where
  name : Text
  path : Text
  args : List Text
  type : Text
  capabilities : List Text
  uid : UInt32
  gid : UInt32
  before : List Text
  after : List Text
  wantTty : Bool
  wantDefaultEnv : Bool
  envExtraWhitelist : List Text
  envExtraVars : List (Text × Text)
  deriving DecidableEq

/-- A `std::vector<char>` that only its reserved memory is used of. -/
structure PtyName where
  capacity : ℕ := 0
  text : Text := []
  deriving DecidableEq

/-- `class ChildProcess`. -/
structure ChildProcess where
  name : Text
  path : Text
  username : Text
  args : List Text
  capabilities : List Text
  uid : UInt32
  gid : UInt32
  graphId : ℕ
  before : List Text
  after : List Text
  conditions : List (ℕ × ProcessState)
  stdout : ℤ × ℤ
  stderr : ℤ × ℤ
  primaryPid : ℤ
  stdoutPTYName : PtyName
  stderrPTYName : PtyName
  wantTty : Bool
  wantDefaultEnv : Bool
  type : ProcessType
  state : ProcessState
  allowedEnvVars : List Text
  envExtraVars : List (Text × Text)
  deriving DecidableEq

/-- Where an object lives. -/
abbrev Ref := ℕ

/-- The objects alive. -/
abbrev Objs := List ChildProcess

/-- `weak_ptr::lock`; `none` is the empty pointer. -/
def lock (objs : Objs) (ref : Option Ref) : Option ChildProcess := ref.bind fun r => objs[r]?

/-- The names every process may take from the host's environment. -/
def defaultEnvVars : List Text :=
  ["HOME", "LANG", "LANGUAGE", "LOGNAME", "PATH", "PWD", "SHELL", "TERM", "USER"].map String.toList

/-- The `type` the constructor reads off the configured string. -/
def ProcessType.ofText (type : Text) : ProcessType :=
  if type.map Char.toLower = "simple".toList then .simple else .oneshot

namespace ChildProcess

/-- The constructor, without its call of `register_for_process_state`. -/
def new (H : Host) (prog : Program) (graphId : ℕ) : ChildProcess where
  name := prog.name
  path := prog.path
  username := (H.getpwuid prog.uid).getD "UNKNOWN".toList
  args := prog.args
  capabilities := prog.capabilities
  uid := prog.uid
  gid := prog.gid
  graphId := graphId
  before := prog.before
  after := prog.after
  conditions := []
  stdout := (-1, -1)
  stderr := (-1, -1)
  primaryPid := -1
  stdoutPTYName := {}
  stderrPTYName := {}
  wantTty := prog.wantTty
  wantDefaultEnv := prog.wantDefaultEnv
  type := ProcessType.ofText prog.type
  state := .blocked
  allowedEnvVars := prog.envExtraWhitelist.foldl (fun vars element => vars.insert element) defaultEnvVars
  envExtraVars := prog.envExtraVars

def canStartNow (p : ChildProcess) : Bool := p.state = .ready

/-- The first declaration of a dependency stays. -/
def shouldWaitFor (p : ChildProcess) (otherProcess : ℕ) (otherState : ProcessState) : ChildProcess :=
  if p.conditions.any fun pair => pair.1 = otherProcess then p
  else { p with conditions := p.conditions ++ [(otherProcess, otherState)] }

/-- `classref->type == ONESHOT ? DONE : RUNNING`. -/
def requiredState (classref : ChildProcess) : ProcessState :=
  if classref.type = .oneshot then .done else .running

/-- Whether `condition` is fulfilled. Both ways of a `BUG` count as not. -/
def fulfilled (objs : Objs) (otherProcs : Map ℕ (Option Ref)) (condition : ℕ × ProcessState) : Bool :=
  match otherProcs[condition.1]? with
  | none => false
  | some ref =>
    match lock objs ref with
    | some ptr => ptr.state = condition.2
    | none => false

def notifyOfState (objs : Objs) (otherProcs : Map ℕ (Option Ref)) (p : ChildProcess) : ChildProcess :=
  if p.state = .blocked then
    let stillBlocked := p.conditions.any fun condition => !fulfilled objs otherProcs condition
    if stillBlocked then p else { p with state := .ready }
  else p

def handleProcessEvent (event : ProcessEvent) (data : ℤ) (p : ChildProcess) : ChildProcess :=
  match event with
  | .sighup => p
  | .exit => { p with state := if data = 0 then .done else .crashed }

end ChildProcess

/-- The lambda of `propagate_dependencies`: `classref` lives at `this`. With
`otherOrThis` the named processes wait for this one, else this one waits for
them; either way the state to wait for is read off `classref`. -/
def propagateOne (otherProcesses : List Ref) (this : Ref) (classref : ChildProcess)
    (dependency : Text) (otherOrThis : Bool) (objs : Objs) : Objs :=
  otherProcesses.foldl
    (fun objs weakRef =>
      match objs[weakRef]? with
      | none => objs
      | some ref =>
        if ref.name = dependency then
          if otherOrThis then
            objs.modify weakRef (·.shouldWaitFor classref.graphId classref.requiredState)
          else objs.modify this (·.shouldWaitFor ref.graphId classref.requiredState)
        else objs)
    objs

/-- The end of `propagate_dependencies`: the process at `this` decides whether it is ready. -/
def ChildProcess.settle (p : ChildProcess) : ChildProcess :=
  { p with before := [], after := [], state := if p.conditions.isEmpty then .ready else p.state }

def propagateDependencies (otherProcesses : List Ref) (this : Ref) (objs : Objs) : Objs :=
  match objs[this]? with
  | none => objs
  | some p =>
    let objs := p.before.foldl (fun objs arg => propagateOne otherProcesses this p arg true objs) objs
    let objs := p.after.foldl (fun objs arg => propagateOne otherProcesses this p arg false objs) objs
    objs.modify this ChildProcess.settle

end Scinit
