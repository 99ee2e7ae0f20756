/-
# The environment of a child

`ChildProcess::handle_env`: the host's variables that the process may see,
then `USER` and the defaults, then the configured variables, each a template
over what is defined so far. The map is rendered into one text, a line for
each variable, and the text is read back line by line.

Key definitions: `scanEnviron`, `setDefaults`, `addExtraVars`, `handleEnv`.
-/
import Scinit.ChildProcess
import Scinit.Lib.Lines

namespace Scinit

/-- `pos = var.find('=')`, `var.substr(0, pos)` and `var.substr(pos + 1)`. A
string without `=` has `pos = npos`: then both are the whole string, since
`npos + 1` is 0. -/
def splitVar (var : Text) : Option ℕ × Text × Text :=
  match var.findIdx? (· = '=') with
  | some pos => (some pos, var.take pos, var.drop (pos + 1))
  | none => (none, var, var)

/-- One turn of the loop over `environ`. `pos` is unsigned, so `pos <= 0` is `pos == 0`. -/
def scanVar (allowed : List Text) (vars : Vars) (var : Text) : Except Exn Vars :=
  match splitVar var with
  | (some 0, _, _) =>
    .error (.childProcess "ERROR: Couldn't find '=' in environment variable string!")
  | (_, key, val) => .ok (if key ∈ allowed then vars.insert key val else vars)

def scanEnviron (allowed environ : List Text) : Except Exn Vars :=
  environ.foldlM (scanVar allowed) ∅

/-- The variables `want_default_env` sets. -/
def defaultEnv (username : Text) : List (Text × Text) :=
  [("LANG".toList, "C".toList), ("LANGUAGE".toList, "en".toList), ("LOGNAME".toList, username),
    ("PATH".toList, "/usr/local/bin:/usr/bin:/bin".toList), ("SHELL".toList, "/bin/bash".toList),
    ("TERM".toList, "screen".toList), ("HOME".toList, "/app".toList), ("PWD".toList, "/app".toList)]

def setDefaults (p : ChildProcess) (vars : Vars) : Vars :=
  let vars := vars.insert "USER".toList p.username
  if p.wantDefaultEnv then (defaultEnv p.username).foldl (fun vars kv => vars.insert kv.1 kv.2) vars
  else vars

/-- One turn of the loop over `env_extra_vars`. -/
def addExtraVar (H : Host) (vars : Vars) (pair : Text × Text) : Except Exn Vars :=
  match H.render pair.2 vars with
  | .ok val => .ok (vars.insert pair.1 val)
  | .error what => .error (.stdException what)

def addExtraVars (H : Host) (extra : List (Text × Text)) (vars : Vars) : Except Exn Vars :=
  extra.foldlM (addExtraVar H) vars

/-- The variables `handle_env` ends up with in `envObj["vars"]`. -/
def envVars (H : Host) (p : ChildProcess) : Except Exn Vars :=
  match scanEnviron p.allowedEnvVars H.environ with
  | .error e => .error e
  | .ok vars => addExtraVars H p.envExtraVars (setDefaults p vars)

/-- `k=v`. -/
def assignment (kv : Text × Text) : Text := kv.1 ++ '=' :: kv.2

/-- What the final template renders to. -/
def renderVars (vars : Vars) : Text := Lines.unlines '\n' (vars.toList.map assignment)

/-- `ChildProcess::handle_env`; the lines are what the loop over `getline` collects. -/
def handleEnv (H : Host) (p : ChildProcess) : Except Exn (List Text) :=
  match envVars H p with
  | .error e => .error e
  | .ok vars => .ok (Lines.lines '\n' (renderVars vars))

/-- A computation goes on where its first part ends well. -/
theorem bind_eq_ok {ε α β : Type} {x : Except ε α} {f : α → Except ε β} {b : β} :
    (x >>= f) = .ok b ↔ ∃ a, x = .ok a ∧ f a = .ok b := by
  cases x with
  | error e => simp [bind, Except.bind]
  | ok a => simp [bind, Except.bind]

end Scinit
