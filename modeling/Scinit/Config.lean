/-
# The configuration

`src/Config.h`: the files, the program entries and the objects made of them.
A file is a YAML document. What yaml-cpp makes of it is not known here: its nodes
are a type of their own, and what `parse_file` asks of them are the parameters
`YamlLib`.

Key definitions: `YamlLib`, `resolveUser`, `resolveGroup`, `readProgram`,
`Config.parseFile`, `Config.load`, `boot`.
-/
import Scinit.Eventloop

namespace Scinit

/-- What is used of yaml-cpp, over its nodes: `YAML::LoadFile`, `node[key]` (`none` is an
undefined node, which is false), the nodes that an iteration visits, `IsScalar`, what
`begin()` points to, and the conversions `as`. Each may throw, with this text. -/
structure YamlLib (Node : Type) where
  loadFile : Text → Except String Node
  get : Node → String → Except String (Option Node)
  items : Node → List Node
  isScalar : Node → Except String Bool
  first : Node → Except String (Node × Node)
  asString : Node → Except String Text
  asInt : Node → Except String ℤ
  asBool : Node → Except String Bool

/-- How loading ends early: an exception, or `exit(-1)` after a user or a group
was not found. -/
inductive LoadError
  | thrown (e : Exn)
  | exit (what : String)
  deriving DecidableEq, Repr

/-- Nothing catches what yaml-cpp throws. -/
def orThrown {α : Type} : Except String α → Except LoadError α
  | .ok a => .ok a
  | .error what => .error (.thrown (.stdException what))

variable {Node : Type}

/-- `if ((*program)[key]) x = (*program)[key].as<...>()`. -/
def YamlLib.getAs {α : Type} (Y : YamlLib Node) (as : Node → Except String α) (node : Node) (key : String) :
    Except LoadError (Option α) := do
  match ← orThrown (Y.get node key) with
  | none => pure none
  | some value => some <$> orThrown (as value)

/-- `yaml_node_to_str_list`. -/
def yamlNodeToStrList (Y : YamlLib Node) (root : Node) (nodeName : String) : Except LoadError (List Text) := do
  match ← orThrown (Y.get root nodeName) with
  | none => pure []
  | some node => (Y.items node).mapM fun str => orThrown (Y.asString str)

/-- `uid` after the fields `uid` and `gid`: both of them set it. -/
def numericUid (uid gid : Option ℤ) : ℤ := gid.getD (uid.getD (-1))

/-- `gid` after the fields `uid` and `gid`. -/
def numericGid (_uid _gid : Option ℤ) : ℤ := -1

/-- `did_set_numeric`. -/
def didSetNumeric (uid gid : Option ℤ) : Bool := uid.isSome || gid.isSome

/-- The id of a name, of `fallback` if there is neither a name nor a number,
else the number. A name that is not found ends the program. -/
def resolveName (lookup : Text → Option UInt32) (name : Option Text) (fallback : String)
    (what : String) (numeric : Bool) (number : ℤ) : Except LoadError UInt32 :=
  if name.isSome || !numeric then
    match lookup (name.getD fallback.toList) with
    | none => .error (.exit what)
    | some id => .ok id
  else .ok (UInt32.ofInt number)

def resolveUser (H : Host) (user : Option Text) (uid gid : Option ℤ) : Except LoadError UInt32 :=
  resolveName H.getpwnam user "nobody" "Couldn't lookup uid of user" (didSetNumeric uid gid)
    (numericUid uid gid)

def resolveGroup (H : Host) (group : Option Text) (uid gid : Option ℤ) : Except LoadError UInt32 :=
  resolveName H.getgrnam group "nogroup" "Couldn't lookup gid of group" (didSetNumeric uid gid)
    (numericGid uid gid)

/-- One turn of the loop over `env`: a scalar is whitelisted, of anything else
the first entry is a variable. -/
def readEnvEntry (Y : YamlLib Node) (acc : List Text × List (Text × Text)) (node : Node) :
    Except LoadError (List Text × List (Text × Text)) := do
  if ← orThrown (Y.isScalar node) then
    let value ← orThrown (Y.asString node)
    pure (acc.1 ++ [value], acc.2)
  else
    let entry ← orThrown (Y.first node)
    let key ← orThrown (Y.asString entry.1)
    let value ← orThrown (Y.asString entry.2)
    pure (acc.1, acc.2 ++ [(key, value)])

def readEnv (Y : YamlLib Node) (program : Node) : Except LoadError (List Text × List (Text × Text)) := do
  match ← orThrown (Y.get program "env") with
  | none => pure ([], [])
  | some env => (Y.items env).foldlM (readEnvEntry Y) ([], [])

/-- The rest of a turn of `parse_file`, for an entry with a name and a path. -/
def readProgram (H : Host) (Y : YamlLib Node) (program name path : Node) : Except LoadError Program := do
  let type ← Y.getAs Y.asString program "type"
  let args ← yamlNodeToStrList Y program "args"
  let capabilities ← yamlNodeToStrList Y program "capabilities"
  let before ← yamlNodeToStrList Y program "before"
  let after ← yamlNodeToStrList Y program "after"
  let uid ← Y.getAs Y.asInt program "uid"
  let gid ← Y.getAs Y.asInt program "gid"
  let user ← Y.getAs Y.asString program "user"
  let userId ← resolveUser H user uid gid
  let group ← Y.getAs Y.asString program "group"
  let groupId ← resolveGroup H group uid gid
  let wantTty ← Y.getAs Y.asBool program "pty"
  let wantDefaultEnv ← Y.getAs Y.asBool program "default_env"
  let (envExtraWhitelist, envExtraVars) ← readEnv Y program
  let name ← orThrown (Y.asString name)
  let path ← orThrown (Y.asString path)
  pure
    { name := name
      path := path
      args := args
      type := type.getD "simple".toList
      capabilities := capabilities
      uid := userId
      gid := groupId
      before := before
      after := after
      wantTty := wantTty.getD false
      wantDefaultEnv := wantDefaultEnv.getD true
      envExtraWhitelist := envExtraWhitelist
      envExtraVars := envExtraVars }

/-- The members of `class Config`, the handler included. The processes are the
objects, in the order of the list `processes`. -/
structure Config where
  processes : Objs := []
  childCounter : ℕ := 0
  handler : ProcessHandler := {}

namespace Config

/-- `make_shared<CTYPE>(...)`, `processes.push_back`, `register_obj_id`. -/
def addProcess (H : Host) (conf : Config) (prog : Program) : Config :=
  let process := ChildProcess.new H prog conf.childCounter
  let ref := conf.processes.length
  { processes := conf.processes ++ [process]
    childCounter := conf.childCounter + 1
    handler := (conf.handler.registerForProcessState process.graphId ref).registerObjId
      process.graphId ref }

/-- One turn of the loop of `parse_file`. -/
def parseProgram (H : Host) (Y : YamlLib Node) (conf : Config) (program : Node) : Except LoadError Config := do
  match ← orThrown (Y.get program "name") with
  | none => pure conf
  | some name =>
    match ← orThrown (Y.get program "path") with
    | none => pure conf
    | some path => do
      let prog ← readProgram H Y program name path
      pure (conf.addProcess H prog)

def parseFile (H : Host) (Y : YamlLib Node) (conf : Config) (programs : Node) : Except LoadError Config :=
  (Y.items programs).foldlM (parseProgram H Y) conf

def loadFile (H : Host) (Y : YamlLib Node) (conf : Config) (file : Text) : Except LoadError Config := do
  let root ← orThrown (Y.loadFile file)
  match ← orThrown (Y.get root "programs") with
  | none => throw (.thrown (.configParse "Config file is missing the 'programs' node!"))
  | some programs => parseFile H Y conf programs

/-- The constructor from a list of files. -/
def load (H : Host) (Y : YamlLib Node) (files : List Text) : Except LoadError Config :=
  files.foldlM (loadFile H Y) {}

/-- `main` after the configuration is loaded: `register_processes` on the
processes in order, then the event loop. -/
def start (conf : Config) : Sys :=
  registerProcesses (List.range conf.processes.length)
    { objs := conf.processes
      handler := conf.handler
      loggers := ["scinit".toList]
      output := []
      kernel := {}
      pc := .setup }

/-- The configuration with the entries `progs`. -/
def ofPrograms (H : Host) (progs : List Program) : Config := progs.foldl (addProcess H) {}

end Config

/-- What `main` enters the event loop with, for the entries `progs`. -/
def boot (H : Host) (progs : List Program) : Sys := (Config.ofPrograms H progs).start

/-! ### A host and programs to run -/

/-- A host without variables and users. -/
def bareHost : Host where
  environ := []
  getpwuid := fun _ => none
  getpwnam := fun _ => none
  getgrnam := fun _ => none
  render := fun text _ => .ok text
  isPid1 := false

/-- A document as a tree. What an iteration over a map visits is a pair, and no valid node. -/
inductive Yaml
  | invalid
  | null
  | scalar (value : Text)
  | sequence (items : List Yaml)
  | map (entries : List (Yaml × Yaml))

namespace Yaml

/-- A key of a map, if it is this text. -/
def isKey (key : Text) : Yaml → Bool
  | .scalar value => value = key
  | _ => false

def get (node : Yaml) (key : String) : Except String (Option Yaml) :=
  match node with
  | .invalid => .error "invalid node"
  | .map entries => .ok ((entries.find? fun e => isKey key.toList e.1).map Prod.snd)
  | .scalar _ => .error "operator[] call on a scalar"
  | _ => .ok none

def items : Yaml → List Yaml
  | .sequence items => items
  | .map entries => entries.map fun _ => .invalid
  | _ => []

def isScalar : Yaml → Except String Bool
  | .invalid => .error "invalid node"
  | .scalar _ => .ok true
  | _ => .ok false

def first : Yaml → Except String (Yaml × Yaml)
  | .map (entry :: _) => .ok entry
  | _ => .error "invalid node"

def asScalar {α : Type} (convert : Text → Option α) : Yaml → Except String α
  | .scalar value =>
    match convert value with
    | some x => .ok x
    | none => .error "bad conversion"
  | _ => .error "bad conversion"

/-- How such a tree is read, where files and scalars are read like this. -/
def lib (loadFile : Text → Except String Yaml) (asInt : Text → Option ℤ) (asBool : Text → Option Bool) :
    YamlLib Yaml where
  loadFile := loadFile
  get := get
  items := items
  isScalar := isScalar
  first := first
  asString := asScalar some
  asInt := asScalar asInt
  asBool := asScalar asBool

end Yaml

/-- A program of the given name and type, with its dependencies. -/
def plain (name : Char) (type : String) (before after : List Char) : Program where
  name := [name]
  path := [name]
  args := []
  type := type.toList
  capabilities := []
  uid := 0
  gid := 0
  before := before.map fun c => [c]
  after := after.map fun c => [c]
  wantTty := false
  wantDefaultEnv := false
  envExtraWhitelist := []
  envExtraVars := []

/-- `a` is simple and is to be started after the oneshot `b`. -/
def simpleAfterOneshot : List Program := [plain 'b' "oneshot" [] [], plain 'a' "simple" [] ['b']]

/-- `b` is to be started after `a`, both are oneshot. -/
def chainAB : List Program := [plain 'a' "oneshot" [] [], plain 'b' "oneshot" [] ['a']]

end Scinit
