/-
# The process handler

`src/ProcessHandler.{h,cpp}` less `enter_eventloop` (`Scinit/Eventloop.lean`):
the tables that lead from ids to objects, from pids and descriptors to ids, and
the functions that read and change them. `operator[]` of a `std::map` inserts a
value where there is none, `at` throws.

A function that may throw returns the state it leaves and the exception.

Key definitions: `ProcessHandler`, `Sys`, `registerProcesses`, `signalReceived`,
`handleChildOutput`, `eventReceived`, `sigchldReceived`, `notifyAll`,
`startProgram`.
-/
import Scinit.Fork

namespace Scinit

/-- The members of `class ProcessHandler`. A signal of `sig_for_id` is the list
of the objects whose `handle_process_event` is connected to it. -/
structure ProcessHandler where
  sigForId : Map ℤ (List Ref) := ∅
  objForId : Map ℕ (Option Ref) := ∅
  idForPid : Map ℤ ℕ := ∅
  idForFd : Map ℤ ℕ := ∅
  numFdForId : Map ℕ UInt32 := ∅
  fdType : Map ℤ FDType := ∅
  allObjs : List Ref := []
  epollFd : ℤ := -1
  signalFd : ℤ := -1
  numberOfRunningProcs : ℤ := 0
  shouldQuit : Bool := false

inductive Level
  | info
  | warn
  deriving DecidableEq, Repr

/-- A line a program's logger was given. -/
structure Line where
  logger : Text
  level : Level
  text : Text
  deriving DecidableEq, Repr

/-- The place of a `start_programs` in `enter_eventloop`: before the loop, at
its head, and at its tail. -/
inductive Site
  | first
  | head
  | tail
  deriving DecidableEq, Repr

/-- Where `enter_eventloop` is. `starting` holds what is left of the second
loop of `start_programs`, `reaping` and `handling` what is left of the batch. -/
inductive Pc
  | setup
  | notify (site : Site)
  | starting (site : Site) (todo : List Ref)
  | polling
  | reaping (batch : List Event)
  | handling (batch : List Event)
  | returned (rc : ℤ)
  | thrown (e : Exn)
  | killed (signal : ℕ)
  deriving DecidableEq

/-- scinit has ended. -/
def Pc.ended : Pc → Bool
  | .returned _ | .thrown _ | .killed _ => true
  | _ => false

/-- The whole state: the objects, the handler, spdlog's registry and what its
loggers were given, the kernel, and the place in `enter_eventloop`. -/
structure Sys where
  objs : Objs
  handler : ProcessHandler
  loggers : List Text
  output : List Line
  kernel : Kernel
  pc : Pc

namespace ProcessHandler

variable (h : ProcessHandler)

def registerForProcessState (id : ℤ) (handler : Ref) : ProcessHandler :=
  { h with sigForId := h.sigForId.insert id ((h.sigForId[id]?.getD []) ++ [handler]) }

def registerObjId (id : ℕ) (obj : Ref) : ProcessHandler :=
  { h with objForId := h.objForId.insert id (some obj) }

end ProcessHandler

/-- `register_processes`. -/
def registerProcesses (refs : List Ref) (s : Sys) : Sys :=
  { s with
    handler := { s.handler with allObjs := refs }
    objs := refs.foldl (fun objs child =>
      match objs[child]? with
      | some _ => propagateDependencies refs child objs
      | none => objs) s.objs }

def signalReceived (signal : ℕ) (s : Sys) : Sys :=
  if signal = sigChld then s
  else
    let signal := if signal = sigInt then sigTerm else signal
    let kernel := s.handler.idForPid.toList.foldl (fun k pair => k.kill pair.1 signal) s.kernel
    let shouldQuit :=
      if (signal &&& sigTerm ≠ 0) ∨ (signal &&& sigQuit ≠ 0) then true else s.handler.shouldQuit
    { s with kernel := kernel, handler := { s.handler with shouldQuit := shouldQuit } }

def handleChildOutput (fd : ℤ) (str : Text) (s : Sys) : Sys × Option Exn :=
  match s.handler.idForFd[fd]? with
  | none => (s, some (.stdException "map::at"))
  | some id =>
    match s.handler.objForId[id]? with
    | none => (s, some (.stdException "map::at"))
    | some ref =>
      match lock s.objs ref with
      | none => (s, none)
      | some obj =>
        match s.handler.fdType[fd]? with
        | none => (s, none)
        | some type =>
          if obj.name ∈ s.loggers then
            let level := match type with
              | .stdout => Level.info
              | .stderr => Level.warn
            ({ s with output := s.output ++ [⟨obj.name, level, str⟩] }, none)
          else (s, some .crash)

/-- `std::string(buf)`: up to the first NUL. -/
def cString (buf : Text) : Text := buf.takeWhile (· ≠ '\x00')

/-- `substr(pos, n)`. -/
def substr (str : Text) (pos n : ℕ) : Except Exn Text :=
  if str.length < pos then .error (.stdException "basic_string::substr")
  else .ok ((str.drop pos).take n)

/-- The loop over `begin`. -/
def beginOf : Text → ℕ
  | [] => 0
  | c :: buf => if c ≠ '\n' then 0 else beginOf buf + 1

/-- The loop over `end`, from a position on. -/
def endFrom (buf : Text) (begin : ℕ) : ℕ → ℕ
  | 0 => 0
  | e + 1 => if begin < e + 1 ∧ buf[e + 1]? = some '\n' then endFrom buf begin e else e + 1

/-- What `event_received` makes of the bytes read: the string to put out. -/
def strip (buf : Text) : Except Exn Text :=
  let nchars : ℤ := buf.length
  let str := cString buf
  let begin := beginOf buf
  let «end» : ℤ := if buf.length = 0 then -1 else endFrom buf begin (buf.length - 1)
  match if 0 < begin then substr str begin str.length else .ok str with
  | .error e => .error e
  | .ok str =>
    if «end» < nchars - 1 ∧ (begin : ℤ) ≤ «end» then substr str 0 («end» - begin + 1).toNat else .ok str

/-- A child descriptor is readable. -/
def outputReceived (fd : ℤ) (c : EventCalls) (s : Sys) : Sys × Option Exn :=
  let n := c.nread.getD 0
  let buf := (s.kernel.unread fd).take n
  let s := { s with kernel := s.kernel.readBytes fd n }
  match strip buf with
  | .error e => (s, some e)
  | .ok str => if str.isEmpty then (s, none) else handleChildOutput fd str s

/-- A child descriptor has lost its last writer. -/
def hangupReceived (fd : ℤ) (c : EventCalls) (s : Sys) : Sys × Option Exn :=
  if !c.epollDel then (s, some .processHandler)
  else
    let h := s.handler
    let id := h.idForFd[fd]?.getD 0
    let num := h.numFdForId[id]?.getD 0 - 1
    let h := { h with
      idForFd := h.idForFd.erase fd
      fdType := h.fdType.erase fd
      numFdForId := h.numFdForId.insert id num }
    let s := { s with kernel := s.kernel.epollDel fd, handler := h }
    if num = 0 then
      let s := { s with handler := { h with objForId := h.objForId.insertIfNew id none } }
      match lock s.objs (s.handler.objForId[id]?.getD none) with
      | some _ => (s, none)
      | none => (s, some .processHandler)
    else (s, none)

def eventReceived (e : Event) (c : EventCalls) (s : Sys) : Sys × Option Exn :=
  if e.epollin then
    if e.fd = s.handler.signalFd then
      match c.signal with
      | none => (s, some .processHandler)
      | some signal =>
        let kernel := { s.kernel with pending := s.kernel.pending.erase signal }
        (signalReceived signal { s with kernel := kernel }, none)
    else outputReceived e.fd c s
  else if e.epollhup then hangupReceived e.fd c s
  else (s, some .processHandler)

/-- The object at `obj_for_id[id]` is only asked for its name, to log it. -/
def sigchldReceived (pid rc : ℤ) (s : Sys) : Sys × Option Exn :=
  match s.handler.idForPid[pid]? with
  | none => (s, none)
  | some id =>
    let h := { s.handler with
      objForId := s.handler.objForId.insertIfNew id none
      numberOfRunningProcs := s.handler.numberOfRunningProcs - 1 }
    match h.sigForId[(id : ℤ)]? with
    | none => ({ s with handler := h }, some .crash)
    | some slots =>
      let objs := slots.foldl (fun objs ref => objs.modify ref (·.handleProcessEvent .exit rc)) s.objs
      ({ s with objs := objs, handler := { h with idForPid := h.idForPid.erase pid } }, none)

/-- The first loop of `start_programs`. -/
def notifyAll (s : Sys) : Sys :=
  { s with
    objs := s.handler.allObjs.foldl
      (fun objs child => objs.modify child fun p => p.notifyOfState objs s.handler.objForId) s.objs }

/-- The `try` block of `start_programs` for the object `p` at `ref`. -/
def startProgram (H : Host) (c : StartCalls) (ref : Ref) (p : ChildProcess) (s : Sys) :
    Sys × Option Exn :=
  if p.name ∈ s.loggers then (s, some (.stdException "logger with that name already exists"))
  else
    let s := { s with loggers := s.loggers ++ [p.name] }
    let f := doFork H c ref p s.kernel s.handler.idForPid
    let s := { s with
      objs := s.objs.set ref f.self
      kernel := f.kernel
      handler := { s.handler with idForPid := f.reg } }
    match f.exn with
    | some e => (s, some e)
    | none =>
      let r := registerWithEpoll c f.self s.kernel s.handler.idForFd s.handler.fdType
      let s := { s with
        kernel := r.kernel
        handler := { s.handler with idForFd := r.map, fdType := r.fdType } }
      match r.exn with
      | some e => (s, some e)
      | none =>
        ({ s with handler := { s.handler with
            numFdForId := s.handler.numFdForId.insert f.self.graphId 2
            numberOfRunningProcs := s.handler.numberOfRunningProcs + 1 } }, none)

/-- One turn of the second loop of `start_programs`. Only what is caught as a
`std::exception` stays inside. -/
def startTurn (H : Host) (c : StartCalls) (ref : Ref) (s : Sys) : Sys × Option Exn :=
  match s.objs[ref]? with
  | none => (s, none)
  | some p =>
    if p.canStartNow then
      match startProgram H c ref p s with
      | (s, some e) => if e.isStdException then (s, none) else (s, some e)
      | (s, none) => (s, none)
    else (s, none)

end Scinit
