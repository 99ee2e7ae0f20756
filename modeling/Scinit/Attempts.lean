/-
# Start attempts, and what a failed one leaves

The `try` block of `start_programs` registers a logger under the name of the
program before it does anything else, and nothing takes it back. So no attempt
that throws leaves everything as it was: the name has a logger afterwards, and
every later attempt of the program throws at once (`not_untouched`). And after
a call in which no system call fails, every process that could be started has
been forked if and only if their names are free and distinct (`all_started_iff`).

Key definitions: `attemptExn`, `CallOk`, `Untouched`, `CanStart`.
Key theorems: `startProgram_exn`, `logged_of_failed`, `not_untouched`, `all_started_iff`.
-/
import Scinit.Wakeup

namespace Scinit

open Transition

variable {H : Host} {progs : List Program} {base : Objs} {tr pre post : List (Sys × Label)}
  {s s' t u : Sys} {l : Label} {r : Ref} {c : StartCalls} {p : ChildProcess}

/-! ### What an attempt throws -/

/-- What `register_with_epoll` throws. -/
def registerExn (c : StartCalls) : Option Exn :=
  if !c.epollOut then some (.childProcess "Couldn't bind stdout pipe to epoll socket!")
  else if !c.epollErr then some (.childProcess "Couldn't bind stderr pipe to epoll socket!")
  else none

/-- What the attempt of a ready object throws once it has its logger. -/
def attemptExn (H : Host) (c : StartCalls) (p : ChildProcess) : Option Exn := (forkExn H c p).or (registerExn c)

theorem registerWithEpoll_exn (c : StartCalls) (p : ChildProcess) (k : Kernel) (map : Map ℤ ℕ)
    (fdType : Map ℤ FDType) : (registerWithEpoll c p k map fdType).exn = registerExn c := by
  unfold registerWithEpoll registerExn
  cases c.epollOut <;> cases c.epollErr <;> rfl

theorem registerExn_eq_none : registerExn c = none ↔ c.epollOut = true ∧ c.epollErr = true := by
  unfold registerExn
  cases c.epollOut <;> cases c.epollErr <;> simp

/-- **What an attempt throws**, where the name is free. -/
theorem startProgram_exn (hr : p.state = .ready) (hn : p.name ∉ s.loggers) :
    (startProgram H c r p s).2 = attemptExn H c p := by
  have hfork := (doFork_spec (H := H) c s.kernel r hr s.handler.idForPid).1
  unfold startProgram attemptExn
  rw [if_neg hn, ← hfork]
  dsimp only
  cases (doFork H c r p s.kernel s.handler.idForPid).exn with
  | some e => rfl
  | none =>
    rw [Option.none_or, ← registerWithEpoll_exn c (doFork H c r p s.kernel s.handler.idForPid).self
      (doFork H c r p s.kernel s.handler.idForPid).kernel s.handler.idForFd s.handler.fdType]
    dsimp only
    split
    · rename_i h
      exact h.symm
    · rename_i h
      exact h.symm

theorem attemptExn_eq_none :
    attemptExn H c p = none ↔ ReachesFork H c p ∧ c.epollOut = true ∧ c.epollErr = true := by
  unfold attemptExn
  rw [Option.or_eq_none_iff, ← reachesFork_iff, registerExn_eq_none]

/-- The object whose turn it is. -/
def Pc.turn : Pc → Option Ref
  | .starting _ (ref :: _) => some ref
  | _ => none

/-- If the step is a start attempt, no system call of it fails and `handle_env` does not throw. -/
def CallOk (H : Host) (s : Sys) : Label → Prop
  | .start c => ∀ r ∈ s.pc.turn, ∀ p ∈ s.objs[r]?, p.state = .ready →
      ReachesFork H c p ∧ c.fork.isSome = true ∧ c.epollOut = true ∧ c.epollErr = true
  | _ => True

instance (H : Host) (s : Sys) (l : Label) : Decidable (CallOk H s l) := by
  unfold CallOk
  cases l <;> infer_instance

/-! ### Failed attempts -/

/-- Everything is as it was before the attempt of the object at `r`: it is still
ready, has no child, no descriptor and no logger, the tables are the same, and
the next attempt succeeds if no call fails then. -/
structure Untouched (H : Host) (r : Ref) (s s' : Sys) : Prop where
  ready : s'.stateOf r = some .ready
  child : ∀ (pid : ℤ) (ch : Child), s'.kernel.children[pid]? = some ch → ch.owner ≠ r
  idForPid : s'.handler.idForPid = s.handler.idForPid
  idForFd : s'.handler.idForFd = s.handler.idForFd
  fdType : s'.handler.fdType = s.handler.fdType
  numFdForId : s'.handler.numFdForId = s.handler.numFdForId
  numberOfRunningProcs : s'.handler.numberOfRunningProcs = s.handler.numberOfRunningProcs
  fds : s'.kernel.fds = s.kernel.fds
  epoll : s'.kernel.epoll = s.kernel.epoll
  loggers : ∀ p : ChildProcess, s'.objs[r]? = some p → p.name ∉ s'.loggers
  again : ∀ (c : StartCalls) (p : ChildProcess), s'.objs[r]? = some p → ReachesFork H c p →
    c.epollOut = true → c.epollErr = true → (startProgram H c r p s').2 = none

theorem throwOf_eq_some (h : throwOf H s l = some r) : ∃ c site todo p, l = .start c ∧
    s.pc = .starting site (r :: todo) ∧ s.objs[r]? = some p ∧ p.state = .ready ∧
      (startProgram H c r p s).2 ≠ none := by
  cases l with
  | start c =>
    simp only [throwOf] at h
    split at h
    · rename_i site ref todo hpc
      split at h
      · rename_i p hp
        simp only [ChildProcess.canStartNow, decide_eq_true_eq, Option.ite_none_right_eq_some,
          Option.some.injEq] at h
        obtain ⟨⟨h1, h2⟩, rfl⟩ := h
        exact ⟨c, site, todo, p, rfl, hpc, hp, h1, h2⟩
      · cases h
    · cases h
  | _ => cases h

/-- Loggers stay. -/
theorem loggers_mono (he : Effect H s l s') : s.loggers ⊆ s'.loggers := by
  cases he with
  | threw | unregistered | forked => exact List.subset_append_left _ _
  | signalled =>
    rw [signalReceived_loggers]
    exact List.Subset.refl _
  | signal =>
    rw [deliver_loggers]
    exact List.Subset.refl _
  | _ => exact List.Subset.refl _

/-- A process has its name for the whole run. -/
theorem name_eq {tr' : List (Sys × Label)} (h : Runs H progs tr s) (h' : Runs H progs tr' s')
    {p p' : ChildProcess} (hp : s.objs[r]? = some p) (hp' : s'.objs[r]? = some p') : p.name = p'.name := by
  obtain ⟨q, hq, hfix⟩ := (run_ids h).same (run_ids h') hp
  rw [hp', Option.some.injEq] at hq
  subst hq
  exact (ChildProcess.name_of_fixed hfix).symm

/-- The turn of a ready object passes it by where its name has a logger, else it leaves one. -/
theorem loggers_of_turn (he : Effect H s (.start c) s') {site : Site} {todo : List Ref}
    (hpc : s.pc = .starting site (r :: todo)) (hp : s.objs[r]? = some p) (hr : p.state = .ready) :
    (p.name ∈ s.loggers ∧ s' = { s with pc := .starting site todo }) ∨
      (p.name ∉ s.loggers ∧ s'.loggers = s.loggers ++ [p.name]) := by
  cases he with
  | skipped hpc' hskip =>
    rw [hpc] at hpc'
    cases hpc'
    exact Or.inl ⟨hskip p hp hr, rfl⟩
  | threw hpc' hp' _ hn | unregistered hpc' hp' _ hn | forked hpc' hp' _ hn =>
    rw [hpc] at hpc'
    cases hpc'
    rw [hp, Option.some.injEq] at hp'
    subst hp'
    exact Or.inr ⟨hn, rfl⟩

/-- After a failed attempt the name has a logger. -/
theorem logged_of_failed (h : Runs H progs pre s) (hs : step H s l = some s')
    (ht : throwOf H s l = some r) (hp : s.objs[r]? = some p) : p.name ∈ s'.loggers := by
  obtain ⟨-, -, he⟩ := run_effect h hs
  obtain ⟨c, site, todo, p', rfl, hpc, hp', hr, hexn⟩ := throwOf_eq_some ht
  rw [hp, Option.some.injEq] at hp'
  subst hp'
  rcases loggers_of_turn he hpc hp hr with ⟨hn, rfl⟩ | ⟨-, hl⟩
  · exact hn
  · rw [hl]
    exact List.mem_append_right _ (List.mem_singleton_self _)

/-- Once its name has a logger, every attempt of an object throws. -/
theorem throws_of_logged (h : Runs H progs tr s) (hp : s.objs[r]? = some p) (hn : p.name ∈ s.loggers)
    (hrun : Run (step H) s post u) {q : ChildProcess} (hq : u.objs[r]? = some q) (c : StartCalls) :
    (startProgram H c r q u).2 ≠ none := by
  have hlog : p.name ∈ u.loggers := by
    clear hq
    induction hrun with
    | refl => exact hn
    | snoc hv hs ih => exact loggers_mono (run_effect (h.trans hv) hs).2.2 ih
  rw [← name_eq (h.trans hrun) h hq hp] at hlog
  rw [startProgram_logged hlog]
  exact Option.some_ne_none _

/-- **A failed attempt** never leaves everything as it was: its program has a logger
afterwards, and no later attempt of it succeeds, whatever its calls answer. -/
theorem not_untouched (h : Runs H progs pre s) (hs : step H s l = some s') (ht : throwOf H s l = some r)
    (hp : s.objs[r]? = some p) : ¬ Untouched H r s s' ∧ p.name ∈ s'.loggers ∧
      ∀ (tr : List (Sys × Label)) (u : Sys) (q : ChildProcess) (c : StartCalls),
        Run (step H) s' tr u → u.objs[r]? = some q → (startProgram H c r q u).2 ≠ none := by
  have hafter := h.snoc hs
  have hn := logged_of_failed h hs ht hp
  obtain ⟨p', hp', hfix⟩ := (run_ids h).same (run_ids hafter) hp
  have hn' : p'.name ∈ s'.loggers := by rwa [ChildProcess.name_of_fixed hfix]
  exact ⟨fun hu => hu.loggers p' hp' hn', hn, fun _ _ _ c hrun hq => throws_of_logged hafter hp' hn' hrun hq c⟩

/-- Two programs of one name. -/
def sameName : List Program := [plain 'p' "simple" [] [], plain 'p' "simple" [] []]

/-- The first of them is started. -/
def firstStarted : List Label := [.setup setupOk, .notify, .start (startOk 10 100)]

theorem firstStarted_possible :
    (exec (step bareHost) (boot bareHost sameName) firstStarted).isSome = true := by decide

theorem not_untouched_sameName :
    ¬ Untouched bareHost 1 ((exec (step bareHost) (boot bareHost sameName) firstStarted).get firstStarted_possible)
      ((step bareHost ((exec (step bareHost) (boot bareHost sameName) firstStarted).get firstStarted_possible)
        (.start (startOk 20 101))).get (by decide)) :=
  (not_untouched (p := ((exec (step bareHost) (boot bareHost sameName) firstStarted).get
      firstStarted_possible).objs.get ⟨1, by decide⟩)
    (Run.of_isSome firstStarted_possible) (Option.some_get _).symm (by decide) (by decide)).1

/-- The turn of the only program comes. -/
def firstTurn : List Label := [.setup setupOk, .notify]

theorem firstTurn_possible :
    (exec (step bareHost) (boot bareHost [plain 'p' "simple" [] []]) firstTurn).isSome = true := by decide

/-- After a `pipe` that fails the logger is still there. -/
theorem touched_by_pipe : ¬ ∀ (H : Host) (progs : List Program) (pre : List (Sys × Label)) (s s' : Sys)
    (l : Label) (r : Ref), Runs H progs pre s → step H s l = some s' → throwOf H s l = some r →
      Untouched H r s s' := by
  intro hall
  have hu := (hall bareHost _ _ _ _ (.start { startOk 10 100 with out := none }) 0
    (Run.of_isSome firstTurn_possible) (Option.some_get (by decide)).symm (by decide)).loggers
  have hlogged : ∃ p, ((step bareHost ((exec (step bareHost) (boot bareHost [plain 'p' "simple" [] []])
      firstTurn).get firstTurn_possible) (.start { startOk 10 100 with out := none })).get
        (by decide)).objs[0]? = some p ∧ p.name = ['p'] := ⟨_, rfl, rfl⟩
  obtain ⟨p, hp, hname⟩ := hlogged
  have hn := hu p hp
  rw [hname] at hn
  revert hn
  decide

/-! ### A call in which nothing fails -/

/-- The process can be started: it is ready, or blocked with all its conditions met. -/
def CanStart (s : Sys) (r : Ref) : Prop :=
  s.stateOf r = some .ready ∨
    ∃ p, s.objs[r]? = some p ∧ p.state = .blocked ∧ ∀ c ∈ p.conditions, s.stateOf c.1 = some c.2

theorem CanStart.get (h : CanStart s r) : ∃ p, s.objs[r]? = some p := by
  rcases h with h | ⟨p, hp, -⟩
  · obtain ⟨p, hp, -⟩ := Sys.stateOf_eq_some.mp h
    exact ⟨p, hp⟩
  · exact ⟨p, hp⟩

theorem notified_ready_iff (hw : WellFormed base) (hi : Ids base s) {r : Ref} :
    (notifyAll s).stateOf r = some .ready ↔ CanStart s r := by
  cases hp : s.objs[r]? with
  | none =>
    have hnone : (notifyAll s).objs[r]? = none := by
      rw [notifyAll_get (hi.sensible hw), hp]
      rfl
    simp [CanStart, Sys.stateOf, hp, hnone]
  | some p =>
    have hmet := met_iff hw hi hp
    rw [notified_stateOf hw hi hp, Option.some.injEq]
    constructor
    · intro h
      split at h
      · rename_i hb
        exact Or.inr ⟨p, hp, hb.1, hmet.mp hb.2⟩
      · exact Or.inl (Sys.stateOf_eq_some.mpr ⟨p, hp, h⟩)
    · rintro (h | ⟨q, hq, hb⟩)
      · rw [Sys.stateOf_eq hp, Option.some.injEq] at h
        rw [if_neg fun hb => by rw [h] at hb; cases hb.1]
        exact h
      · rw [hp, Option.some.injEq] at hq
        subst hq
        rw [if_pos ⟨hb.1, hmet.mpr hb.2⟩]

/-- A process that was forked has its logger from then on. -/
theorem logged_of_fork (h : Runs H progs tr s) {v : Sys} (hm : (v, l) ∈ tr) (hf : forkOf H v l = some r)
    (hp : v.objs[r]? = some p) : p.name ∈ s.loggers := by
  induction h with
  | refl => exact absurd hm List.not_mem_nil
  | @snoc tr s s' l' h hs ih =>
    obtain ⟨-, -, he⟩ := run_effect h hs
    rcases List.mem_append.mp hm with hm | hm
    · exact loggers_mono he (ih hm)
    · cases List.mem_singleton.mp hm
      obtain ⟨c, site, todo, p', rfl, hpc, hp', hr, hn, hexn⟩ := forkOf_eq_some hf
      rw [hp, Option.some.injEq] at hp'
      subst hp'
      rcases loggers_of_turn he hpc hp hr with ⟨hin, -⟩ | ⟨-, hl⟩
      · exact absurd hin hn
      · rw [hl]
        exact List.mem_append_right _ (List.mem_singleton_self _)

/-- No two processes of one name are forked. -/
theorem forks_distinct (h : Runs H progs tr s) {v v' : Sys} {l' : Label} {r' : Ref} {p' : ChildProcess}
    (hm : (v, l) ∈ tr) (hm' : (v', l') ∈ tr) (hf : forkOf H v l = some r) (hf' : forkOf H v' l' = some r')
    (hp : v.objs[r]? = some p) (hp' : v'.objs[r']? = some p') (hname : p.name = p'.name) : r = r' := by
  obtain ⟨_, _, _, q, -, -, hq, -, hn, -⟩ := forkOf_eq_some hf
  obtain ⟨_, _, _, q', -, -, hq', -, hn', -⟩ := forkOf_eq_some hf'
  rw [hp, Option.some.injEq] at hq
  rw [hp', Option.some.injEq] at hq'
  subst hq hq'
  obtain ⟨a, b, v₁, rfl, ha, hs, hb⟩ := h.step_of_mem hm
  rcases List.mem_append.mp hm' with hm' | hm'
  · exact absurd (hname ▸ logged_of_fork ha hm' hf' hp') hn
  · rcases List.mem_cons.mp hm' with he | hm'
    · cases he
      exact Option.some.inj (hf.symm.trans hf')
    · obtain ⟨b₁, b₂, rfl⟩ := List.append_of_mem hm'
      rw [← List.cons_append, ← List.append_assoc] at h
      exact absurd (hname ▸ logged_of_fork h.split.1 (by simp) hf hp) hn'

/-- The logger was there when a call began, or is that of a process that could be
started then and does not wait for its turn. -/
def LoggerFrom (t : Sys) (todo : List Ref) (n : Text) : Prop :=
  n ∈ t.loggers ∨ ∃ r p, r ∉ todo ∧ t.objs[r]? = some p ∧ CanStart t r ∧ p.name = n

theorem LoggerFrom.tail {todo : List Ref} {n : Text} (h : LoggerFrom t (r :: todo) n) : LoggerFrom t todo n := by
  rcases h with h | ⟨r', p, hr', h⟩
  · exact Or.inl h
  · exact Or.inr ⟨r', p, fun hm => hr' (List.mem_cons_of_mem _ hm), h⟩

/-- What a step of a call that goes on does to the loggers: a turn of a ready
object may leave one. -/
theorem loggers_of_step (he : Effect H s l s') (hl : l ≠ .started) {site site' : Site} {todo todo' : List Ref}
    (hpc : s.pc = .starting site todo) (hpc' : s'.pc = .starting site' todo') :
    (todo' = todo ∧ s'.loggers = s.loggers) ∨ ∃ r, todo = r :: todo' ∧ (s'.loggers = s.loggers ∨
      ∃ p, s.objs[r]? = some p ∧ p.state = .ready ∧ s'.loggers = s.loggers ++ [p.name]) := by
  cases he with
  | setup h | setupFailed h | notify h | epollWait h | reap h | reapUnknown h | reaped h | signalled h
  | output h | hungUp h | eventFailed h | exitTest h =>
    rw [hpc] at h
    cases h
  | started => exact absurd rfl hl
  | unregistered => cases hpc'
  | skipped h =>
    rw [hpc] at h
    cases h
    cases hpc'
    exact Or.inr ⟨_, rfl, Or.inl rfl⟩
  | threw h hp hr _ _ hpcs =>
    rw [hpc] at h
    cases h
    rcases hpcs with rfl | ⟨e, rfl⟩
    · cases hpc'
      exact Or.inr ⟨_, rfl, Or.inr ⟨_, hp, hr, rfl⟩⟩
    · cases hpc'
  | forked h hp hr =>
    rw [hpc] at h
    cases h
    cases hpc'
    exact Or.inr ⟨_, rfl, Or.inr ⟨_, hp, hr, rfl⟩⟩
  | act =>
    cases hpc.symm.trans hpc'
    exact Or.inl ⟨rfl, rfl⟩
  | signal =>
    rw [pc_of_deliver fun m hm => by rw [hm] at hpc'; cases hpc'] at hpc'
    cases hpc.symm.trans hpc'
    exact Or.inl ⟨rfl, deliver_loggers H _ s⟩

/-- Where the loggers in a call come from. -/
theorem logger_origin (hpre : Runs H progs pre t) {site : Site} (hpc : t.pc = .notify site)
    (h : Run (step H) { notifyAll t with pc := .starting site t.handler.allObjs } post u)
    (hno : ∀ e ∈ post, e.2 ≠ .started) {site' : Site} {todo : List Ref} (hu : u.pc = .starting site' todo)
    {n : Text} (hn : n ∈ u.loggers) : LoggerFrom t todo n := by
  have hw := boot_wellFormed H progs
  have hi := run_ids hpre
  have hnd : t.handler.allObjs.Nodup := by
    rw [hi.allObjs]
    exact List.nodup_range
  have hnotify : step H t .notify = some { notifyAll t with pc := .starting site t.handler.allObjs } := by
    simp only [step, hpc]
  induction h generalizing site' todo with
  | refl => exact Or.inl hn
  | @snoc post v u l hv hs ih =>
    simp only [List.forall_mem_append, List.forall_mem_singleton] at hno
    have hrun : Runs H progs (pre ++ (t, .notify) :: post) v := hpre.trans ((Run.single hnotify).trans hv)
    obtain ⟨-, -, he⟩ := run_effect hrun hs
    have hend := not_ended_of_step hs
    rcases call_from hpre hpc hv hno.1 with hth | ⟨m, hm⟩ | ⟨done, todo₀, hpcv, hcall⟩
    · rw [not_thrown_of_step hs] at hth
      cases hth
    · rw [hm] at hend
      cases hend
    · rcases loggers_of_step he hno.2 hpcv hu with ⟨rfl, hl⟩ | ⟨r, rfl, hl | ⟨p, hp, hr, hl⟩⟩
      · rw [hl] at hn
        exact ih hno.1 hpcv hn
      · rw [hl] at hn
        exact (ih hno.1 hpcv hn).tail
      · rw [hl] at hn
        rcases List.mem_append.mp hn with hn | hn
        · exact (ih hno.1 hpcv hn).tail
        · -- the logger of the object whose turn it was
          obtain ⟨pt, hpt, hfix⟩ := (run_ids hrun).same hi hp
          have hname : pt.name = n := (ChildProcess.name_of_fixed hfix).trans (List.mem_singleton.mp hn).symm
          refine Or.inr ⟨r, pt, ?_, hpt, ?_, hname⟩
          · rw [hcall.all, List.nodup_append, List.nodup_cons] at hnd
            exact hnd.2.1.1
          · rw [← notified_ready_iff hw hi, Sys.stateOf, ← hcall.waiting r (by simp), hp, Option.map_some, hr]

/-- The loggers at a turn: those from before the call, and those of other
processes that could be started. -/
theorem loggers_at_turn (h : Runs H progs (pre ++ (t, .notify) :: post) u) (hno : ∀ e ∈ post, e.2 ≠ .started)
    {v : Sys} (hm : (v, l) ∈ post) {site : Site} {todo : List Ref} (hpc : v.pc = .starting site (r :: todo)) :
    t.loggers ⊆ v.loggers ∧ ∀ n ∈ v.loggers, n ∈ t.loggers ∨
      ∃ r' p', r' ≠ r ∧ t.objs[r']? = some p' ∧ CanStart t r' ∧ p'.name = n := by
  obtain ⟨a, b, rfl⟩ := List.append_of_mem hm
  have hno : ∀ e ∈ a, e.2 ≠ .started := fun e he => hno e (by simp [he])
  rw [← List.cons_append, ← List.append_assoc] at h
  have hv := h.split.1
  obtain ⟨done, hcall⟩ := call_of_started hv hno hpc
  refine ⟨hcall.loggers, fun n hn => ?_⟩
  obtain ⟨hpre, t', hs, ha⟩ := hv.split
  obtain ⟨-, -, he⟩ := run_effect hpre hs
  cases he with
  | notify hpct =>
    rcases logger_origin hpre hpct ha hno hpc hn with h | ⟨r', p', hr', h⟩
    · exact Or.inl h
    · exact Or.inr ⟨r', p', fun he => hr' (by simp [he]), h⟩

/-- In a call in which nothing fails, an attempt throws only for the sake of a logger. -/
theorem logged_of_threw (hok : CallOk H s (.start c)) (ht : Threw H s c r) :
    ∃ site todo p, s.pc = .starting site (r :: todo) ∧ s.objs[r]? = some p ∧ p.name ∈ s.loggers := by
  obtain ⟨site, todo, p, hpc, hp, hr, hexn⟩ := ht
  refine ⟨site, todo, p, hpc, hp, ?_⟩
  by_contra hn
  rw [startProgram_exn hr hn] at hexn
  obtain ⟨h1, -, h2⟩ := hok r (by simp [hpc, Pc.turn]) p (by simp [hp]) hr
  exact hexn (attemptExn_eq_none.mpr ⟨h1, h2⟩)

/-- The names of the processes that could be started are free and distinct. -/
def NamesFree (t : Sys) : Prop :=
  ∀ (r : Ref) (p : ChildProcess), t.objs[r]? = some p → CanStart t r → p.name ∉ t.loggers ∧
    ∀ (r' : Ref) (p' : ChildProcess), t.objs[r']? = some p' → CanStart t r' → p'.name = p.name → r' = r

/-- A state of a call is one of a run. -/
theorem run_of_mem (hu : Runs H progs (pre ++ (t, .notify) :: post) u) {v : Sys} (hm : (v, l) ∈ post) :
    ∃ tr, Runs H progs tr v := by
  obtain ⟨tr, _, _, _, hv, -, -⟩ := hu.step_of_mem (List.mem_append_right _ (List.mem_cons_of_mem _ hm))
  exact ⟨tr, hv⟩

/-- A call that forks all of them finds their names free and distinct. -/
theorem namesFree_of_forked (hu : Runs H progs (pre ++ (t, .notify) :: post) u)
    (hno : ∀ e ∈ post, e.2 ≠ .started)
    (hforked : ∀ r, CanStart t r → ∃ v l, (v, l) ∈ post ∧ forkOf H v l = some r) : NamesFree t := by
  have hpre := hu.split.1
  intro r p hp hcan
  obtain ⟨v, l, hm, hf⟩ := hforked r hcan
  obtain ⟨c, site, todo, q, rfl, hpcv, hq, -, hn, -⟩ := forkOf_eq_some hf
  obtain ⟨_, hv⟩ := run_of_mem hu hm
  have hname := name_eq hpre hv hp hq
  refine ⟨fun hin => hn ?_, fun r' p' hp' hcan' hsame => ?_⟩
  · rw [← hname]
    exact (loggers_at_turn hu hno hm hpcv).1 hin
  · obtain ⟨v', l', hm', hf'⟩ := hforked r' hcan'
    obtain ⟨_, _, _, q', -, -, hq', -⟩ := forkOf_eq_some hf'
    obtain ⟨_, hv'⟩ := run_of_mem hu hm'
    refine forks_distinct hu (List.mem_append_right _ (List.mem_cons_of_mem _ hm'))
      (List.mem_append_right _ (List.mem_cons_of_mem _ hm)) hf' hf hq' hq ?_
    calc q'.name = p'.name := (name_eq hpre hv' hp' hq').symm
      _ = p.name := hsame
      _ = q.name := hname

/-- Where they are free and distinct, no attempt of such a process throws. -/
theorem not_threw_of_namesFree (hu : Runs H progs (pre ++ (t, .notify) :: post) u)
    (hno : ∀ e ∈ post, e.2 ≠ .started) (hok : ∀ e ∈ post, CallOk H e.1 e.2) (hnames : NamesFree t)
    (hcan : CanStart t r) {v : Sys} (hm : (v, .start c) ∈ post) : ¬ Threw H v c r := by
  intro ht
  obtain ⟨site, todo, q, hpcv, hq, hin⟩ := logged_of_threw (hok _ hm) ht
  obtain ⟨p, hp⟩ := hcan.get
  obtain ⟨_, hv⟩ := run_of_mem hu hm
  obtain ⟨hfree, hdist⟩ := hnames r p hp hcan
  rw [← name_eq hu.split.1 hv hp hq] at hin
  rcases (loggers_at_turn hu hno hm hpcv).2 _ hin with h | ⟨r', p', hne, hp', hcan', hname⟩
  · exact hfree h
  · exact hne (hdist r' p' hp' hcan' hname)

/-- **Every process that could be started is started** by a call in which
nothing fails, if and only if the names of these processes are free and distinct. -/
theorem all_started_iff (h : Runs H progs tr s) : ∀ pre t post u post',
    tr = pre ++ (t, .notify) :: (post ++ (u, .started) :: post') → (∀ e ∈ post, e.2 ≠ .started) →
    (∀ e ∈ post, CallOk H e.1 e.2) →
    (((∀ r, u.stateOf r ≠ some .ready) ∧
        ∀ r, CanStart t r → (post.countP fun e => forkOf H e.1 e.2 = some r) = 1) ↔
      ∀ (r : Ref) (p : ChildProcess), t.objs[r]? = some p → CanStart t r → p.name ∉ t.loggers ∧
        ∀ (r' : Ref) (p' : ChildProcess), t.objs[r']? = some p' → CanStart t r' → p'.name = p.name → r' = r) := by
  rintro pre t post u post' rfl hno hok
  rw [← List.cons_append, ← List.append_assoc] at h
  obtain ⟨hu, _, hs, -⟩ := h.split
  have hw := boot_wellFormed H progs
  have hi := run_ids hu.split.1
  obtain ⟨site, -, hcall⟩ := call_of_returns hu hno hs
  have hturned : ∀ {r : Ref}, r < progs.length → Turned H post r ((notifyAll t).stateOf r) (u.stateOf r) :=
    fun {r} hr => hcall.turned r (List.mem_range.mpr hr)
  constructor
  · rintro ⟨-, hforked⟩
    refine namesFree_of_forked hu hno fun r hcan => ?_
    have hpos : 0 < post.countP fun e => forkOf H e.1 e.2 = some r := by
      rw [hforked r hcan]
      exact one_pos
    obtain ⟨⟨v, l⟩, hm, hf⟩ := List.countP_pos_iff.mp hpos
    exact ⟨v, l, hm, of_decide_eq_true hf⟩
  · intro hnames
    refine ⟨fun r hr => ?_, fun r hcan => ?_⟩
    · obtain ⟨p, hp, -⟩ := Sys.stateOf_eq_some.mp hr
      have hturn := hturned (run_lt hu hp)
      rw [hr] at hturn
      generalize hst : (notifyAll t).stateOf r = a at hturn
      cases hturn with
      | idle hne => exact hne rfl
      | threw hm ht =>
        exact not_threw_of_namesFree hu hno hok hnames ((notified_ready_iff hw hi).mp hst) hm ht
    · obtain ⟨p, hp⟩ := hcan.get
      have hturn := hturned (run_lt hu.split.1 hp)
      rw [(notified_ready_iff hw hi).mpr hcan] at hturn
      generalize u.stateOf r = b at hturn
      apply le_antisymm
      · calc (post.countP fun e => forkOf H e.1 e.2 = some r)
            ≤ (pre ++ (t, .notify) :: post).countP fun e => forkOf H e.1 e.2 = some r :=
              ((List.sublist_cons_self _ _).trans (List.sublist_append_right _ _)).countP_le
          _ ≤ 1 := fork_once hu r
      · cases hturn with
        | idle hne => exact absurd rfl hne
        | forked hm hf => exact List.countP_pos_iff.mpr ⟨_, hm, decide_eq_true hf⟩
        | threw hm ht => exact absurd ht (not_threw_of_namesFree hu hno hok hnames hcan hm)

/-- The signals are set up. -/
def setUp : List Label := [.setup setupOk]

/-- The turns of `a`, and of `b` which waits. -/
def aStarts : List Label := [.notify, .start (startOk 10 100), .start (startOk 20 101)]

theorem not_started_of_aStarts {e : Sys × Label} (he : e ∈ trace (step H) s aStarts) : e.2 ≠ .started := by
  have hmem := label_mem_of_mem_trace he
  simp only [aStarts, List.mem_cons, List.not_mem_nil, or_false] at hmem
  rcases hmem with h | h | h <;> rw [h] <;> exact fun he => by cases he

theorem setUp_possible : (exec (step bareHost) (boot bareHost chainAB) setUp).isSome = true := by decide

theorem aStarts_possible : (exec (step bareHost) ((exec (step bareHost) (boot bareHost chainAB) setUp).get
    setUp_possible) aStarts).isSome = true := by decide

theorem aStarted_possible :
    (exec (step bareHost) (boot bareHost chainAB) (setUp ++ (aStarts ++ [.started]))).isSome = true := by decide

theorem all_started_iff_aStarts : ((exec (step bareHost)
    ((exec (step bareHost) (boot bareHost chainAB) setUp).get setUp_possible) aStarts).get
      aStarts_possible).stateOf 0 ≠ some .ready := by
  have htr := (trace_append (aStarts ++ [.started]) (Option.some_get setUp_possible).symm).trans
    (congrArg _ (trace_append [.started] (Option.some_get aStarts_possible).symm))
  refine ((all_started_iff (Run.of_isSome aStarted_possible) _ _ _ _ [] htr (fun e he hl => ?_)
    (by decide)).mpr fun (r : ℕ) p hp _ => ?_).1 0
  · exact not_started_of_aStarts (List.mem_cons_of_mem _ he) hl
  · -- the programs are `a` and `b`
    have hname : ∀ r < 2, (((exec (step bareHost) (boot bareHost chainAB) setUp).get
        setUp_possible).objs[r]?.map (·.name)) = some (if r = 0 then ['a'] else ['b']) := by decide
    have hlt : ∀ {r : ℕ} {p : ChildProcess}, ((exec (step bareHost) (boot bareHost chainAB) setUp).get
        setUp_possible).objs[r]? = some p → r < 2 := fun h => (List.getElem?_eq_some_iff.mp h).1
    have hp' := hname r (hlt hp)
    rw [hp, Option.map_some, Option.some.injEq] at hp'
    refine ⟨?_, fun (r' : ℕ) q hq _ he => ?_⟩
    · rw [hp']
      split <;> decide
    · have hq' := hname r' (hlt hq)
      rw [hq, Option.map_some, Option.some.injEq] at hq'
      rw [hp', hq'] at he
      have hr := hlt hp
      have hr' := hlt hq
      have hsame : (r' : ℕ) = r := by
        revert he
        split <;> split <;> simp <;> omega
      exact hsame

theorem sameSetUp_possible : (exec (step bareHost) (boot bareHost sameName) setUp).isSome = true := by decide

theorem sameStarts_possible : (exec (step bareHost) ((exec (step bareHost) (boot bareHost sameName) setUp).get
    sameSetUp_possible) aStarts).isSome = true := by decide

theorem sameStarted_possible :
    (exec (step bareHost) (boot bareHost sameName) (setUp ++ (aStarts ++ [.started]))).isSome = true := by decide

/-- After a call in which nothing fails the second of two programs of one name is still ready. -/
theorem left_ready : ¬ ∀ (H : Host) (progs : List Program) (tr : List (Sys × Label)) (s : Sys),
    Runs H progs tr s → ∀ pre t post u post', tr = pre ++ (t, .notify) :: (post ++ (u, .started) :: post') →
      (∀ e ∈ post, e.2 ≠ .started) → (∀ e ∈ post, CallOk H e.1 e.2) → ∀ r, u.stateOf r ≠ some .ready := by
  intro hall
  have htr := (trace_append (aStarts ++ [.started]) (Option.some_get sameSetUp_possible).symm).trans
    (congrArg _ (trace_append [.started] (Option.some_get sameStarts_possible).symm))
  refine hall bareHost sameName _ _ (Run.of_isSome sameStarted_possible) _ _ _ _ [] htr (fun e he hl => ?_)
    (by decide) 1 (by decide)
  exact not_started_of_aStarts (List.mem_cons_of_mem _ he) hl

end Scinit
