/-
# scinit and the programs it runs

scinit's steps and what the programs do to their descriptors, in any order. A
program starts with the descriptors `do_fork` leaves it, and may close and copy
them, execute files and fork. A stream is written by its own program and what
descends from that, and by nobody else: the write end of its pipe is held
nowhere else, by scinit neither (`stream_isolated`). What is not here is a process
that comes by another's descriptor in another way than by `fork`. A process may
live on here after scinit saw its exit: what holds then holds of any timing.

Key definitions: `World`, `Move`, `World.step`, `Isolated`.
Key theorems: `fds_mono`, `launched_holds`, `Isolated.step`, `stream_isolated`.
-/
import Scinit.Accounting
import Scinit.Lib.ProcessTable

namespace Scinit

open Transition

/-- scinit with its descriptors, and the processes that descend from its children. The
root of a process is the entry its ancestor was forked for. -/
structure World where
  sys : Sys
  own : Files
  procs : ProcessTable ℤ Ref ℤ File

/-- A step of scinit, with what its child answers if it forks one, or an operation of a process. -/
inductive Move
  | scinit (l : Label) (a : ChildCalls)
  | process (op : ProcessTable.Op ℤ ℤ)

namespace World

variable (H : Host) (L : LibCap) (cred : Credentials)

/-- The processes after a step: a child that executes its program is one of them. -/
def launch (w : World) (l : Label) (a : ChildCalls) : ProcessTable ℤ Ref ℤ File :=
  match l with
  | .start c =>
    match forkOf H w.sys (.start c), c.fork with
    | some r, some pid =>
      match childEnd H L a w.own cred w.sys c r with
      | some (.exec launch) => w.procs.spawn pid ⟨r, launch.files⟩
      | _ => w.procs
    | _, _ => w.procs
  | _ => w.procs

def step (w : World) : Move → Option World
  | .scinit l a => (Scinit.step H w.sys l).map fun s' => ⟨s', stepFiles H w.own w.sys l, w.launch H L cred l a⟩
  | .process op => (w.procs.perform op).map fun procs => { w with procs := procs }

/-- What `main` enters the event loop with; nothing else runs. -/
def init (H : Host) (progs : List Program) : World := ⟨boot H progs, Files.standard, fun _ => none⟩

end World

variable {H : Host} {L : LibCap} {cred : Credentials} {progs : List Program} {tr : List (Sys × Label)} {s s' : Sys}
  {l : Label} {c : StartCalls} {r : Ref} {p : ChildProcess} {a : ChildCalls} {w w' : World} {m : Move}

/-! ### Descriptors stay in use -/

/-- No step closes a descriptor that was open before it. -/
theorem fds_mono (h : Runs H progs tr s) (hs : step H s l = some s') : s.kernel.fds ⊆ s'.kernel.fds := by
  obtain ⟨-, -, he⟩ := run_effect h hs
  cases l with
  | setup c =>
    cases he with
    | setup => exact fun fd hfd => List.mem_cons_of_mem _ (List.mem_cons_of_mem _ hfd)
    | setupFailed _ hsub => exact hsub
  | start c =>
    obtain ⟨r, hturn, hk, hfds⟩ := start_fds hs
    cases hst : startable s r with
    | none =>
      rw [hst] at hfds
      rw [show s'.kernel = s.kernel from hfds]
      exact List.Subset.refl _
    | some p =>
      rw [hst] at hfds
      have hleft := hfds.trans (doFork_leaves hk (startable_eq_some.mp hst).2.1 _)
      rw [hleft]
      exact List.subset_append_right _ _
  | notify | started | epollWait | reap | reaped | event | exitTest | act | signal =>
    rw [fds_of_effect he (fun _ hl => by cases hl) fun _ hl => by cases hl]
    exact List.Subset.refl _

/-- A fork opens two descriptors, whether or not its process can be registered. -/
theorem fds_of_fork (hs : step H s (.start c) = some s') (hfork : forkOf H s (.start c) = some r) {out err : ℤ × ℤ}
    (hout : c.out = some out) (herr : c.err = some err) :
    s.kernel.MayStart c ∧ s'.kernel.fds = err.1 :: out.1 :: s.kernel.fds := by
  obtain ⟨p, hturn, hst, hexn⟩ := attempt_of_fork hfork
  obtain ⟨r', hturn', hk, hfds⟩ := start_fds hs
  obtain rfl := Option.some.inj (hturn.symm.trans hturn')
  rw [hst] at hfds
  refine ⟨hk, (hfds.trans (doFork_leaves hk (startable_eq_some.mp hst).2.1 _)).trans ?_⟩
  rw [leftByFork, hout, herr]
  exact congrArg (· ++ s.kernel.fds) (if_pos hexn)

/-- What a launched program holds the write end of: its own pipes, or those of attempts before. -/
theorem launched_holds (h : Runs H progs tr s) (hs : step H s (.start c) = some s')
    (hfork : forkOf H s (.start c) = some r) {launch : Launch}
    (hend : childEnd H L a (filesOf H tr) cred s c r = some (.exec launch)) {pipe : ℤ}
    (hh : launch.files.Holds (.writeEnd pipe)) :
    (pipe ∉ s.kernel.fds ∧ pipe ∈ s'.kernel.fds) ∨ (filesOf H tr).Holds (.writeEnd pipe) := by
  obtain ⟨g, q, out, err, -, hout, herr, hpo, hpe, -, hF⟩ := childEnd_eq_exec h hs hfork hend
  obtain ⟨hk, hfds⟩ := fds_of_fork hs hfork hout herr
  obtain ⟨fd, f, hf, hfile⟩ := hh
  have hfiled := run_filed h (not_thrown_of_step hs)
  rcases launched_writeEnds hfiled hk hout herr hpo hpe hF hf hfile with ⟨rfl, -⟩ | ⟨rfl, -⟩ | hh
  · exact Or.inl ⟨(hk.1 out hout).2.2.1, by rw [hfds]; simp⟩
  · exact Or.inl ⟨(hk.2.1 err herr).2.2.1, by rw [hfds]; simp⟩
  · exact Or.inr hh

/-- A stream was there before the step, or the step forked its process and opened it. -/
theorem readEnd_mem_or_forked (h : Runs H progs tr s) (hs : step H s l = some s') (hp : s'.objs[r]? = some p)
    (hst : p.started) (type : FDType) :
    (∃ p₀, s.objs[r]? = some p₀ ∧ p₀.started ∧ p.readEnd type = p₀.readEnd type) ∨
      (forkOf H s l = some r ∧ p.readEnd type ∉ s.kernel.fds) := by
  obtain ⟨hi, -, he⟩ := run_effect h hs
  rcases started_of_effect (boot_wellFormed H progs) hi he hp hst with
    ⟨p₀, hp₀, hst₀, hout, herr, -⟩ | ⟨c, rfl, hfork, hout, herr, -⟩
  · refine Or.inl ⟨p₀, hp₀, hst₀, ?_⟩
    cases type with
    | stdout => exact congrArg Prod.fst hout
    | stderr => exact congrArg Prod.fst herr
  · obtain ⟨-, -, hk, -⟩ := start_fds hs
    obtain ⟨-, -, ho, -⟩ := hk.1 _ hout
    obtain ⟨-, -, he, -⟩ := hk.2.1 _ herr
    refine Or.inr ⟨hfork, ?_⟩
    cases type with
    | stdout => exact ho
    | stderr => exact he

/-! ### The streams are kept apart -/

/-- Nothing is held but what was opened, and of a started process only under its own root. -/
structure Isolated (H : Host) (progs : List Program) (w : World) : Prop where
  reached : ∃ tr, Runs H progs tr w.sys ∧ w.own = filesOf H tr
  opened : ∀ root pipe, w.procs.Holds root (.writeEnd pipe) → pipe ∈ w.sys.kernel.fds
  apart : ∀ root r p type, w.sys.objs[r]? = some p → p.started →
    w.procs.Holds root (.writeEnd (p.readEnd type)) → root = r

/-- A step of scinit adds at most one process, which has what `do_fork` leaves it. -/
theorem holds_of_launch {root : Ref} {file : File} (hh : (w.launch H L cred l a).Holds root file) :
    (∃ c launch, l = .start c ∧ forkOf H w.sys l = some root ∧
      childEnd H L a w.own cred w.sys c root = some (.exec launch) ∧ launch.files.Holds file) ∨
      w.procs.Holds root file := by
  cases l with
  | start c =>
    unfold World.launch at hh
    dsimp only at hh
    split at hh
    · rename_i r pid hfork hpid
      split at hh
      · rename_i launch hend
        rcases ProcessTable.holds_of_spawn hh with ⟨rfl, hfiles⟩ | hh
        · exact Or.inl ⟨c, launch, rfl, hfork, hend, hfiles⟩
        · exact Or.inr hh
      · exact Or.inr hh
    · exact Or.inr hh
  | _ => exact Or.inr hh

theorem Isolated.scinit (h : Isolated H progs w) (hs : Scinit.step H w.sys l = some s') :
    Isolated H progs ⟨s', stepFiles H w.own w.sys l, w.launch H L cred l a⟩ := by
  obtain ⟨tr, hrun, hown⟩ := h.reached
  have hfiled := run_filed hrun (not_thrown_of_step hs)
  have hmono := fds_mono hrun hs
  -- what a process holds after the step, by where it comes from
  have hheld : ∀ {root pipe}, (w.launch H L cred l a).Holds root (.writeEnd pipe) →
      (forkOf H w.sys l = some root ∧
        ((pipe ∉ w.sys.kernel.fds ∧ pipe ∈ s'.kernel.fds) ∨ (filesOf H tr).Holds (.writeEnd pipe))) ∨
      w.procs.Holds root (.writeEnd pipe) := fun hh => by
    rcases holds_of_launch hh with ⟨c, launch, rfl, hfork, hend, hh⟩ | hh
    · rw [hown] at hend
      exact Or.inl ⟨hfork, launched_holds hrun hs hfork hend hh⟩
    · exact Or.inr hh
  refine ⟨⟨_, hrun.snoc hs, ?_⟩, fun root pipe hh => ?_, fun root r p type hp hst hh => ?_⟩
  · rw [filesOf, List.foldl_append, hown]
    rfl
  · rcases hheld hh with ⟨-, ⟨-, hin⟩ | hh⟩ | hh
    · exact hin
    · exact hmono (hfiled.pipes pipe hh)
    · exact hmono (h.opened root pipe hh)
  · rcases readEnd_mem_or_forked hrun hs hp hst type with ⟨p₀, hp₀, hst₀, hend⟩ | ⟨hfork, hnew⟩
    · obtain ⟨hread, hno⟩ := hfiled.stream r p₀ type hp₀ hst₀
      rw [hend] at hh
      rcases hheld hh with ⟨-, ⟨hnew, -⟩ | hh⟩ | hh
      · exact absurd (mem_fds_of_apply hfiled.isOpen hread) hnew
      · exact absurd hh hno
      · exact h.apart root r p₀ type hp₀ hst₀ hh
    · rcases hheld hh with ⟨hfork', -⟩ | hh
      · exact Option.some.inj (hfork'.symm.trans hfork)
      · exact absurd (h.opened root _ hh) hnew

theorem Isolated.step (h : Isolated H progs w) (hs : World.step H L cred w m = some w') : Isolated H progs w' := by
  cases m with
  | scinit l a =>
    obtain ⟨s', hstep, rfl⟩ := Option.map_eq_some_iff.mp hs
    exact h.scinit hstep
  | process op =>
    obtain ⟨procs, hop, rfl⟩ := Option.map_eq_some_iff.mp hs
    exact {
      reached := h.reached
      opened := fun root pipe hh => h.opened root pipe (ProcessTable.holds_of_perform hop hh)
      apart := fun root r p type hp hst hh => h.apart root r p type hp hst (ProcessTable.holds_of_perform hop hh) }

theorem Isolated.init : Isolated H progs (World.init H progs) where
  reached := ⟨[], .refl, rfl⟩
  opened := by
    rintro root pipe ⟨pid, p, hp, -⟩
    cases hp
  apart := by
    rintro root r p type - - ⟨pid, q, hq, -⟩
    cases hq

/-- **A stream is written by its own program**: whatever is called in whatever order, the
write end of its pipe is held by what descends from the process forked for it, by no
other program and not by scinit. -/
theorem stream_isolated {moves : List (World × Move)}
    (h : Run (World.step H L cred) (World.init H progs) moves w) (hp : w.sys.objs[r]? = some p)
    (hst : p.started) (type : FDType) :
    (∀ root, w.procs.Holds root (.writeEnd (p.readEnd type)) → root = r) ∧
      (w.sys.pc.isThrown = false → ¬ w.own.Holds (.writeEnd (p.readEnd type))) := by
  have hiso : Isolated H progs w := h.inv .init fun _ _ _ hi hs => hi.step hs
  refine ⟨fun root hh => hiso.apart root r p type hp hst hh, fun ht => ?_⟩
  obtain ⟨tr, hrun, hown⟩ := hiso.reached
  rw [hown]
  exact ((run_filed hrun ht).stream r p type hp hst).2

/-- Two programs are started; the first one forks, copies its output over its errors and exits. -/
def twoPrograms : List Move :=
  [.setup setupOk, .notify, .start (startOk 10 100), .start (startOk 20 101)].map
      (Move.scinit · ⟨true, true, capsOk, true⟩) ++
    [.process (.fork 100 200), .process (.dup2 200 1 2), .process (.exit 100)]

theorem twoPrograms_possible : (exec (World.step bareHost someLibCap rootCredentials)
    (World.init bareHost [plain 'p' "first" [] [], plain 'q' "second" [] []]) twoPrograms).isSome = true := by
  decide +kernel

/-- It runs, and its output is read from descriptor 10. -/
theorem twoPrograms_first : (((exec (World.step bareHost someLibCap rootCredentials)
    (World.init bareHost [plain 'p' "first" [] [], plain 'q' "second" [] []]) twoPrograms).get
    twoPrograms_possible).sys.objs[0]?.map fun p => (p.state, p.readEnd .stdout)) = some (.running, 10) := by
  decide +kernel

/-- The process that the first program forked writes to it. -/
theorem twoPrograms_forked : (((exec (World.step bareHost someLibCap rootCredentials)
    (World.init bareHost [plain 'p' "first" [] [], plain 'q' "second" [] []]) twoPrograms).get
    twoPrograms_possible).procs 200).bind (fun p => (p.files 1).map fun f => (p.root, f.file)) =
    some (0, .writeEnd 10) := by
  decide +kernel

theorem stream_isolated_twoPrograms : ((exec (World.step bareHost someLibCap rootCredentials)
    (World.init bareHost [plain 'p' "first" [] [], plain 'q' "second" [] []]) twoPrograms).get
    twoPrograms_possible).procs.Holds 0 (.writeEnd 10) ∧ ¬ ((exec (World.step bareHost someLibCap rootCredentials)
    (World.init bareHost [plain 'p' "first" [] [], plain 'q' "second" [] []]) twoPrograms).get
    twoPrograms_possible).procs.Holds 1 (.writeEnd 10) := by
  obtain ⟨p, hp, hfirst⟩ := Option.map_eq_some_iff.mp twoPrograms_first
  obtain ⟨hrun, hread⟩ := Prod.mk.inj hfirst
  obtain ⟨q, hq, hbind⟩ := Option.bind_eq_some_iff.mp twoPrograms_forked
  obtain ⟨f, hf, hpair⟩ := Option.map_eq_some_iff.mp hbind
  obtain ⟨hroot, hfile⟩ := Prod.mk.inj hpair
  refine ⟨⟨200, q, hq, hroot, 1, f, hf, hfile⟩, fun hh => ?_⟩
  have hone := (stream_isolated (Run.of_isSome twoPrograms_possible) hp
    (ChildProcess.started_of_running hrun) .stdout).1 1 (hread.symm ▸ hh)
  cases hone

end Scinit
