/-
# The event loop

`enter_eventloop` step by step, each step with the answers of the kernel, and
what the children do in between. A step is possible when scinit is at its
place and the kernel may answer so; nothing is possible once scinit has ended.

Key definitions: `Label`, `step`.
-/
import Scinit.ProcessHandler
import Scinit.Lib.Run

namespace Scinit

inductive Label
  | setup (c : SetupCalls)
  | notify
  | start (c : StartCalls)
  | started
  | epollWait (batch : List Event)
  | reap (pid rc : ℤ)
  | reaped
  | event (c : EventCalls)
  | exitTest
  | act (a : Act)
  | signal (n : ℕ)

/-- `setup_signal_handlers`: the mask is SIGCHLD, SIGINT and SIGQUIT. -/
def setupSignalHandlers (c : SetupCalls) (s : Sys) : Sys × Option Exn :=
  if !c.sigprocmask then (s, some .processHandler)
  else
    let s := { s with kernel := { s.kernel with mask := [sigChld, sigInt, sigQuit] } }
    match c.signalfd with
    | none => (s, some .processHandler)
    | some signalFd =>
      let s := { s with
        kernel := { s.kernel with fds := signalFd :: s.kernel.fds }
        handler := { s.handler with signalFd := signalFd } }
      match c.epollCreate with
      | none => (s, some .processHandler)
      | some epollFd =>
        let s := { s with
          kernel := { s.kernel with fds := epollFd :: s.kernel.fds }
          handler := { s.handler with epollFd := epollFd } }
        if !c.epollCtl then (s, some .processHandler)
        else ({ s with kernel := s.kernel.epollAdd signalFd }, none)

/-- `signalfd` and `epoll_create1` return descriptors that are not open. -/
def Kernel.MaySetup (k : Kernel) (c : SetupCalls) : Prop :=
  (∀ fd ∈ c.signalfd, 0 ≤ fd ∧ fd ∉ k.fds) ∧
  ∀ fd ∈ c.epollCreate, 0 ≤ fd ∧ fd ∉ k.fds ∧ c.signalfd ≠ some fd

instance (k : Kernel) (c : SetupCalls) : Decidable (k.MaySetup c) := by
  unfold Kernel.MaySetup; infer_instance

/-- Going on at `pc`, or leaving with the exception that nothing catches. -/
def Sys.goto (r : Sys × Option Exn) (pc : Pc) : Sys :=
  match r.2 with
  | none => { r.1 with pc := pc }
  | some e => { r.1 with pc := .thrown e }

/-- Where `start_programs` returns to. The tail of the loop ends the program
when nothing is left running. -/
def afterStart (site : Site) (s : Sys) : Pc :=
  match site with
  | .first => .notify .head
  | .head => .polling
  | .tail => if s.handler.numberOfRunningProcs = 0 then .returned 0 else .notify .head

/-- The tests after the batch. -/
def afterBatch (s : Sys) : Pc :=
  if s.handler.numberOfRunningProcs = 0 ∧ s.handler.shouldQuit = true then .returned 0
  else if s.handler.shouldQuit = false then .notify .tail
  else .notify .head

theorem afterStart_cases (site : Site) (s : Sys) :
    (site = .head ∧ afterStart site s = .polling) ∨
      (site = .tail ∧ s.handler.numberOfRunningProcs = 0 ∧ afterStart site s = .returned 0) ∨
      (site ≠ .head ∧ afterStart site s = .notify .head) := by
  unfold afterStart
  cases site with
  | first => exact Or.inr (Or.inr ⟨by decide, rfl⟩)
  | head => exact Or.inl ⟨rfl, rfl⟩
  | tail =>
    by_cases hnum : s.handler.numberOfRunningProcs = 0
    · exact Or.inr (Or.inl ⟨rfl, hnum, if_pos hnum⟩)
    · exact Or.inr (Or.inr ⟨by decide, if_neg hnum⟩)

theorem afterBatch_cases (s : Sys) :
    (s.handler.numberOfRunningProcs = 0 ∧ s.handler.shouldQuit = true ∧ afterBatch s = .returned 0) ∨
      (s.handler.shouldQuit = false ∧ afterBatch s = .notify .tail) ∨
      (s.handler.shouldQuit = true ∧ afterBatch s = .notify .head) := by
  unfold afterBatch
  by_cases hend : s.handler.numberOfRunningProcs = 0 ∧ s.handler.shouldQuit = true
  · exact Or.inl ⟨hend.1, hend.2, if_pos hend⟩
  · rw [if_neg hend]
    cases hq : s.handler.shouldQuit with
    | false => exact Or.inr (Or.inl ⟨rfl, if_pos rfl⟩)
    | true => exact Or.inr (Or.inr ⟨rfl, if_neg (by decide)⟩)

/-- A signal sent to scinit: queued if it is blocked, else its default action, which
the kernel spares PID 1. While it is stopped, scinit takes no step. -/
def deliver (H : Host) (n : ℕ) (s : Sys) : Sys :=
  if n ∈ s.kernel.mask then { s with kernel := s.kernel.enqueue n }
  else if H.isPid1 = true ∨ n ∈ harmlessSignals then s
  else { s with pc := .killed n }

/-- One step of scinit or of a child. -/
def step (H : Host) (s : Sys) : Label → Option Sys
  | .setup c =>
    if s.pc = .setup ∧ s.kernel.MaySetup c then
      some (Sys.goto (setupSignalHandlers c s) (.notify .first))
    else none
  | .notify =>
    match s.pc with
    | .notify site => some { notifyAll s with pc := .starting site s.handler.allObjs }
    | _ => none
  | .start c =>
    match s.pc with
    | .starting site (ref :: todo) =>
      if s.kernel.MayStart c then some (Sys.goto (startTurn H c ref s) (.starting site todo))
      else none
    | _ => none
  | .started =>
    match s.pc with
    | .starting site [] => some { s with pc := afterStart site s }
    | _ => none
  | .epollWait batch =>
    if s.pc = .polling ∧ s.kernel.MayReportAll s.handler.signalFd batch then
      some { s with pc := .reaping batch }
    else none
  | .reap pid rc =>
    match s.pc with
    | .reaping batch =>
      if s.kernel.MayReap pid rc then
        some (Sys.goto (sigchldReceived pid rc { s with kernel := s.kernel.reap pid }) (.reaping batch))
      else none
    | _ => none
  | .reaped =>
    match s.pc with
    | .reaping batch => some { s with pc := .handling batch }
    | _ => none
  | .event c =>
    match s.pc with
    | .handling (e :: batch) =>
      if s.kernel.MayAnswer e.fd c then some (Sys.goto (eventReceived e c s) (.handling batch))
      else none
    | _ => none
  | .exitTest =>
    match s.pc with
    | .handling [] => some { s with pc := afterBatch s }
    | _ => none
  | .act a => if s.pc.ended then none else (s.kernel.act a).map fun k => { s with kernel := k }
  | .signal n =>
    -- the signals of Linux
    if s.pc.ended = false ∧ s.pc ≠ .setup ∧ 1 ≤ n ∧ n ≤ 64 then some (deliver H n s) else none

end Scinit
