/-
# The kernel scinit runs on

What the system calls of scinit read and change: its open descriptors, the
pipes and ptys its children write to, the epoll set, its children and its
pending signals. What the kernel decides comes with the call (the answers
`StartCalls`, `EventCalls`, `SetupCalls`, an `Event` of a batch), and a
predicate says which answers it may give (`Kernel.MayStart`, `Kernel.MayReport`,
`Kernel.MayReap`). `Act` is what happens outside scinit: a child writes, exits
or drops its descriptors.

A pipe is known by the descriptor scinit reads it from. `owner` is history: no
call reads it.
-/
import Scinit.ChildProcess

namespace Scinit

def maxEvents : ℕ := 10
def bufSize : ℕ := 4096

def sigInt : ℕ := 2
def sigQuit : ℕ := 3
def sigTerm : ℕ := 15
def sigChld : ℕ := 17

/-- The signals that ask scinit to end. -/
def terminationSignals : List ℕ := [sigInt, sigQuit, sigTerm]

/-- The signals whose default action does not end a process: it ignores SIGCHLD, SIGCONT,
SIGURG and SIGWINCH, and SIGSTOP, SIGTSTP, SIGTTIN and SIGTTOU stop it until it is continued. -/
def harmlessSignals : List ℕ := [sigChld, 18, 23, 28, 19, 20, 21, 22]

def erange : ℤ := 34

/-- What `ttyname_r` returns if it fails for good. -/
abbrev TtyError := {rc : ℤ // rc ≠ 0 ∧ rc ≠ erange}

/-- A pipe, or a pty that takes the place of one: every byte written to it,
those of them that were read, and whether a writer is left. -/
structure Pipe where
  written : Text := []
  got : Text := []
  writers : Bool := true
  deriving DecidableEq

/-- The bytes still to be read: a pipe is a FIFO. -/
def Pipe.unread (p : Pipe) : Text := p.written.drop p.got.length

/-- A forked child until it is reaped: the object that forked it, the pipes
its stdout and stderr lead to, what it executes, its exit status once it has
exited, and the signals sent to it. -/
structure Child where
  owner : Ref
  out : ℤ
  err : ℤ
  argv : List Text
  envp : List Text
  status : Option ℤ := none
  signals : List ℕ := []
  deriving DecidableEq

/-- Whether a signal that asks to end was sent to the child. -/
def Child.signalled (c : Child) : Bool := c.signals.any fun n => n ∈ terminationSignals

structure Kernel where
  fds : List ℤ := [0, 1, 2]
  pipes : Map ℤ Pipe := ∅
  epoll : List ℤ := []
  children : Map ℤ Child := ∅
  mask : List ℕ := []
  pending : List ℕ := []

/-- An entry of the buffer `epoll_wait` fills. -/
structure Event where
  fd : ℤ
  epollin : Bool
  epollhup : Bool
  deriving DecidableEq, Repr

/-- The answers to the calls of `setup_signal_handlers`. -/
structure SetupCalls where
  sigprocmask : Bool
  signalfd : Option ℤ
  epollCreate : Option ℤ
  epollCtl : Bool

/-- The answers to the calls of one start attempt; `none` and `false` are -1.
`ttyname` is the name of a terminal, or the error that `ttyname_r` returns for it. -/
structure StartCalls where
  out : Option (ℤ × ℤ)
  err : Option (ℤ × ℤ)
  ttyname : ℤ → Except TtyError Text
  fork : Option ℤ
  epollOut : Bool
  epollErr : Bool

/-- The answers to the calls of `event_received`: the signal read from
`signal_fd` (`none` if the size is wrong), how many bytes `read` returned
(`none` is -1), and whether the descriptor could be taken out of epoll. -/
structure EventCalls where
  signal : Option ℕ
  nread : Option ℕ
  epollDel : Bool

/-- What happens outside scinit. -/
inductive Act
  | write (pid : ℤ) (stream : FDType) (bytes : Text)
  | exit (pid : ℤ) (status : ℤ)
  | hangup (fd : ℤ)

namespace Kernel

variable (k : Kernel)

/-- `pipe` or `openpty`: scinit holds both ends. -/
def openPair (p : ℤ × ℤ) : Kernel :=
  { k with fds := p.1 :: p.2 :: k.fds, pipes := k.pipes.insert p.1 {} }

/-- `close` of a pipe's other end; without a child no writer is left. -/
def closeWriteEnd (p : ℤ × ℤ) (child : Bool) : Kernel :=
  { k with
    fds := k.fds.erase p.2
    pipes := if child then k.pipes else k.pipes.modify p.1 fun q => { q with writers := false } }

def addChild (pid : ℤ) (c : Child) : Kernel := { k with children := k.children.insert pid c }

def epollAdd (fd : ℤ) : Kernel := { k with epoll := fd :: k.epoll }

def epollDel (fd : ℤ) : Kernel := { k with epoll := k.epoll.erase fd }

/-- `read` of `n` bytes. -/
def readBytes (fd : ℤ) (n : ℕ) : Kernel :=
  { k with pipes := k.pipes.modify fd fun q => { q with got := q.got ++ q.unread.take n } }

/-- The bytes that are read. -/
def unread (fd : ℤ) : Text := (k.pipes[fd]?.map Pipe.unread).getD []

/-- `kill`; -1 stands for every process. -/
def kill (pid : ℤ) (signal : ℕ) : Kernel :=
  let send (c : Child) : Child := { c with signals := c.signals ++ [signal] }
  { k with
    children := if pid = -1 then k.children.map fun _ c => send c else k.children.modify pid send }

/-- A child is gone once it is reaped. -/
def reap (pid : ℤ) : Kernel := { k with children := k.children.erase pid }

/-- A blocked signal is queued. -/
def enqueue (signal : ℕ) : Kernel :=
  if signal ∈ k.mask then { k with pending := k.pending ++ [signal] } else k

/-- A child's pipe for one of its streams. -/
def streamOf (c : Child) : FDType → ℤ
  | .stdout => c.out
  | .stderr => c.err

/-- What a child does: it writes while it lives and its stream is open, exits
once, and at any time the last writer of a pipe may go. Those it has handed its
streams on to may hold them open, but what they write is not modelled. -/
def act : Act → Option Kernel
  | .write pid stream bytes =>
    match k.children[pid]? with
    | none => none
    | some c =>
      match k.pipes[streamOf c stream]? with
      | none => none
      | some q =>
        if c.status = none ∧ q.writers = true then
          some { k with pipes := k.pipes.insert (streamOf c stream) { q with written := q.written ++ bytes } }
        else none
  | .exit pid status =>
    match k.children[pid]? with
    | none => none
    | some c =>
      if c.status = none then
        some ({ k with children := k.children.insert pid { c with status := some status } }.enqueue sigChld)
      else none
  | .hangup fd =>
    match k.pipes[fd]? with
    | none => none
    | some q => some { k with pipes := k.pipes.insert fd { q with writers := false } }

/-- `pipe` and `openpty` return descriptors that are not open, `fork` a pid
that no child has, a zombie included. -/
def MayStart (c : StartCalls) : Prop :=
  (∀ p ∈ c.out, 0 ≤ p.1 ∧ 0 ≤ p.2 ∧ p.1 ∉ k.fds ∧ p.2 ∉ k.fds ∧ p.1 ≠ p.2) ∧
  (∀ p ∈ c.err, 0 ≤ p.1 ∧ 0 ≤ p.2 ∧ p.1 ∉ k.fds ∧ p.2 ∉ k.fds ∧ p.1 ≠ p.2 ∧
    ∀ q ∈ c.out, p.1 ≠ q.1 ∧ p.1 ≠ q.2 ∧ p.2 ≠ q.1 ∧ p.2 ≠ q.2) ∧
  (∀ pid ∈ c.fork, 0 < pid ∧ k.children[pid]? = none)

instance (c : StartCalls) : Decidable (k.MayStart c) := by unfold MayStart; infer_instance

/-- `epoll_wait` tells of registered descriptors what is true of them. -/
def MayReport (signalFd : ℤ) (e : Event) : Prop :=
  e.fd ∈ k.epoll ∧ (e.epollin = true ∨ e.epollhup = true) ∧
  if e.fd = signalFd then (e.epollin = true ↔ k.pending ≠ []) ∧ e.epollhup = false
  else (e.epollin = true ↔ k.unread e.fd ≠ []) ∧
    (e.epollhup = true ↔ (k.pipes[e.fd]?.map Pipe.writers) = some false)

instance (signalFd : ℤ) (e : Event) : Decidable (k.MayReport signalFd e) := by
  unfold MayReport; infer_instance

/-- At most `MAX_EVENTS` entries, none for the same descriptor; some may be left out. -/
def MayReportAll (signalFd : ℤ) (batch : List Event) : Prop :=
  batch.length ≤ maxEvents ∧ (batch.map Event.fd).Nodup ∧ ∀ e ∈ batch, k.MayReport signalFd e

instance (signalFd : ℤ) (batch : List Event) : Decidable (k.MayReportAll signalFd batch) := by
  unfold MayReportAll; infer_instance

/-- `waitpid` returns a child that has exited, with its status, or a process
that scinit did not fork. -/
def MayReap (pid rc : ℤ) : Prop :=
  0 < pid ∧ (k.children[pid]?.map Child.status = some (some rc) ∨ k.children[pid]? = none)

instance (pid rc : ℤ) : Decidable (k.MayReap pid rc) := by unfold MayReap; infer_instance

/-- A signal that is read was pending, and `read` returns at most `BUF_SIZE` of
the unread bytes. -/
def MayAnswer (fd : ℤ) (c : EventCalls) : Prop :=
  (∀ n ∈ c.signal, n ∈ k.pending) ∧ (∀ n ∈ c.nread, n ≤ bufSize ∧ n ≤ (k.unread fd).length)

instance (fd : ℤ) (c : EventCalls) : Decidable (k.MayAnswer fd c) := by
  unfold MayAnswer; infer_instance

end Kernel

end Scinit
