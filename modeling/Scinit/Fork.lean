/-
# Forking a child

`ChildProcess::do_fork` and `ChildProcess::register_with_epoll`. An exception
leaves them in the middle: what was done before it stays done, so both return
the state they leave together with the exception, if there is one.

Key definitions: `openPipes`, `openPtys`, `forkChild`, `doFork`,
`registerWithEpoll`.
-/
import Scinit.Environment
import Scinit.Kernel

namespace Scinit

/-- What `do_fork` leaves: its own object, the kernel, the map `reg` and the
exception it ends with. -/
structure Forked where
  self : ChildProcess
  kernel : Kernel
  reg : Map ℤ ℕ
  exn : Option Exn

/-- The descriptors of a child without a terminal. -/
def openPipes (c : StartCalls) (p : ChildProcess) (k : Kernel) :
    ChildProcess × Kernel × Option Exn :=
  match c.out with
  | none => (p, k, some (.childProcess "Couldn't create stdout pipe!"))
  | some out =>
    match c.err with
    | none => ({ p with stdout := out }, k.openPair out,
        some (.childProcess "Couldn't create stderr pipe!"))
    | some err => ({ p with stdout := out, stderr := err }, (k.openPair out).openPair err, none)

/-- `reserve`. -/
def PtyName.reserve (b : PtyName) (n : ℕ) : PtyName := { b with capacity := max b.capacity n }

/-- The capacity at which `ttyname_r` stops returning `ERANGE`: the loop
reserves twice the capacity and one more each time. -/
def growTo (length capacity : ℕ) : ℕ :=
  if length + 1 ≤ capacity then capacity else growTo length (capacity * 2 + 1)
termination_by length + 1 - capacity

/-- `while ((rc = ttyname_r(fd, b.data(), b.capacity())) == ERANGE) b.reserve(...)`. -/
def ttynameLoop (name : Except TtyError Text) (b : PtyName) : PtyName × ℤ :=
  match name with
  | .error rc => (b, rc.val)
  | .ok name => ({ capacity := growTo name.length b.capacity, text := name }, 0)

/-- The descriptors of a child with a terminal. Both loops ask for the name of `stdout[1]`. -/
def openPtys (c : StartCalls) (p : ChildProcess) (k : Kernel) :
    ChildProcess × Kernel × Option Exn :=
  match c.out with
  | none => (p, k, some (.childProcess "Couldn't allocate stdout pty!"))
  | some out =>
    match c.err with
    | none => ({ p with stdout := out }, k.openPair out,
        some (.childProcess "Couldn't allocate stderr pty!"))
    | some err =>
      let p := { p with stdout := out, stderr := err }
      let k := (k.openPair out).openPair err
      let p := { p with
        stdoutPTYName := p.stdoutPTYName.reserve 64
        stderrPTYName := p.stderrPTYName.reserve 64 }
      let (b, rc) := ttynameLoop (c.ttyname p.stdout.2) p.stdoutPTYName
      let p := { p with stdoutPTYName := b }
      if rc ≠ 0 then (p, k, some (.childProcess "Couldn't load name of stdout pty!"))
      else
        let (b, rc) := ttynameLoop (c.ttyname p.stdout.2) p.stderrPTYName
        let p := { p with stderrPTYName := b }
        if rc ≠ 0 then (p, k, some (.childProcess "Couldn't load name of stderr pty!"))
        else (p, k, none)

/-- From `fork` on. Nothing looks at a result of -1. -/
def forkChild (c : StartCalls) (this : Ref) (environment : List Text) (p : ChildProcess)
    (k : Kernel) (reg : Map ℤ ℕ) : Forked :=
  let pid := c.fork.getD (-1)
  let child : Child :=
    { owner := this, out := p.stdout.1, err := p.stderr.1, argv := p.path :: p.args, envp := environment }
  let k := if c.fork.isSome then k.addChild pid child else k
  let k := (k.closeWriteEnd p.stdout c.fork.isSome).closeWriteEnd p.stderr c.fork.isSome
  { self := { p with primaryPid := pid, state := .running }
    kernel := k
    reg := reg.insert pid p.graphId
    exn := none }

def doFork (H : Host) (c : StartCalls) (this : Ref) (p : ChildProcess) (k : Kernel)
    (reg : Map ℤ ℕ) : Forked :=
  if p.state ≠ .ready then
    ⟨p, k, reg, some (.childProcess "Process not ready, cannot fork now!")⟩
  else
    match if p.wantTty then openPtys c p k else openPipes c p k with
    | (p, k, some e) => ⟨p, k, reg, some e⟩
    | (p, k, none) =>
      match handleEnv H p with
      | .error e => ⟨p, k, reg, some e⟩
      | .ok environment => forkChild c this environment p k reg

/-- What `register_with_epoll` leaves. -/
structure Registered where
  kernel : Kernel
  map : Map ℤ ℕ
  fdType : Map ℤ FDType
  exn : Option Exn

def registerWithEpoll (c : StartCalls) (p : ChildProcess) (k : Kernel) (map : Map ℤ ℕ)
    (fdType : Map ℤ FDType) : Registered :=
  if !c.epollOut then
    ⟨k, map, fdType, some (.childProcess "Couldn't bind stdout pipe to epoll socket!")⟩
  else if !c.epollErr then
    ⟨k.epollAdd p.stdout.1, map, fdType,
      some (.childProcess "Couldn't bind stderr pipe to epoll socket!")⟩
  else
    { kernel := (k.epollAdd p.stdout.1).epollAdd p.stderr.1
      map := (map.insert p.stdout.1 p.graphId).insert p.stderr.1 p.graphId
      fdType := (fdType.insert p.stdout.1 .stdout).insert p.stderr.1 .stderr
      exn := none }

end Scinit
