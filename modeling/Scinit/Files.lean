/-
# The descriptors of scinit

What the descriptors of scinit refer to, call by call: `filesOf` follows them
along a run. The two of `setup_signal_handlers` are closed by `exec`; those of
the children are not, since `fcntl(fd, FD_CLOEXEC)` is `fcntl(fd, F_GETFD)`
and sets nothing. What is open is what the kernel of the model has open
(`Filed.isOpen`), the read ends of the started processes stay open, and their
write ends are gone (`Filed.stream`).

Key definitions: `File`, `stepFiles`, `filesOf`, `Filed`.
Key theorems: `doFork_fds_eq`, `run_filed`.
-/
import Scinit.Ending
import Scinit.Transcript
import Scinit.Lib.FileTable

namespace Scinit

open Transition

/-- The files scinit has to do with. A pipe, or a terminal, is named by the
descriptor scinit reads it from. -/
inductive File
  | given (fd : ℤ)
  | signals
  | epoll
  | readEnd (pipe : ℤ)
  | writeEnd (pipe : ℤ)
  deriving DecidableEq, Repr

abbrev Files := FileTable ℤ File

variable {H : Host} {progs : List Program} {base : Objs} {tr : List (Sys × Label)} {s s' : Sys} {l : Label}
  {c : StartCalls} {r : Ref} {p p' : ChildProcess} {k : Kernel} {fd : ℤ} {T : Files} {out err : ℤ × ℤ}

/-! ### The calls -/

/-- What scinit is started with. -/
def Files.standard : Files := fun fd => if fd ∈ [0, 1, 2] then some ⟨.given fd, false⟩ else none

/-- `pipe` or `openpty`. -/
def Files.openPair (T : Files) (p : ℤ × ℤ) : Files :=
  (T.opened p.1 (.readEnd p.1) false).opened p.2 (.writeEnd p.1) false

/-- `signalfd` with `SFD_CLOEXEC` and `epoll_create1` with `EPOLL_CLOEXEC`. -/
def setupFiles (c : SetupCalls) (T : Files) : Files :=
  if !c.sigprocmask then T
  else
    match c.signalfd with
    | none => T
    | some signalFd =>
      let T := T.opened signalFd .signals true
      match c.epollCreate with
      | none => T
      | some epollFd => T.opened epollFd .epoll true

/-- The calls of `do_fork` in scinit: both pairs are opened, and the ends of the
child are closed after `fork`. An exception closes nothing. -/
def attemptFiles (H : Host) (c : StartCalls) (p : ChildProcess) (T : Files) : Files :=
  match c.out with
  | none => T
  | some out =>
    let T := T.openPair out
    match c.err with
    | none => T
    | some err =>
      let T := T.openPair err
      if forkExn H c p = none then (T.close out.2).close err.2 else T

def stepFiles (H : Host) (T : Files) (s : Sys) : Label → Files
  | .setup c => setupFiles c T
  | .start c =>
    match s.pc.turn.bind (startable s) with
    | none => T
    | some p => attemptFiles H c p T
  | _ => T

/-- The descriptors of scinit after a run. -/
def filesOf (H : Host) (tr : List (Sys × Label)) : Files :=
  tr.foldl (fun T e => stepFiles H T e.1 e.2) Files.standard

/-! ### The descriptors that are open -/

theorem Files.openPair_apply (T : Files) (p : ℤ × ℤ) (fd : ℤ) : T.openPair p fd =
    if fd = p.2 then some ⟨.writeEnd p.1, false⟩ else if fd = p.1 then some ⟨.readEnd p.1, false⟩ else T fd := by
  rw [Files.openPair, FileTable.opened_apply, FileTable.opened_apply]

/-- The kernel after the descriptors of a child were opened, or as many of them as could be. -/
def Kernel.openPairs (k : Kernel) (c : StartCalls) : Kernel :=
  match c.out, c.err with
  | none, _ => k
  | some out, none => k.openPair out
  | some out, some err => (k.openPair out).openPair err

theorem opened_kernel (c : StartCalls) (p : ChildProcess) (k : Kernel) : ∃ q,
    (if p.wantTty = true then openPtys c p k else openPipes c p k) = (q, k.openPairs c, openExn c p) ∧
      ∀ out err, c.out = some out → c.err = some err → q.stdout = out ∧ q.stderr = err := by
  unfold openExn Kernel.openPairs
  by_cases ht : p.wantTty = true
  · simp only [ht, if_true, openPtys, true_and]
    cases c.out with
    | none => exact ⟨_, rfl, fun _ _ h => by cases h⟩
    | some out =>
      cases c.err with
      | none => exact ⟨_, rfl, fun _ _ _ h => by cases h⟩
      | some err =>
        dsimp only
        rw [ttynameLoop_rc _ (p.stdoutPTYName.reserve 64) {}, ttynameLoop_rc _ (p.stderrPTYName.reserve 64) {}]
        have hpairs : ∀ out' err', some out = some out' → some err = some err' → out = out' ∧ err = err' :=
          fun _ _ ho he => ⟨Option.some.inj ho, Option.some.inj he⟩
        by_cases hrc : (ttynameLoop (c.ttyname out.2) {}).2 = 0
        · simp only [hrc, ne_eq, not_true_eq_false, if_false]
          exact ⟨_, rfl, hpairs⟩
        · simp only [hrc, ne_eq, not_false_eq_true, if_true]
          exact ⟨_, rfl, hpairs⟩
  · simp only [ht, if_false, openPipes, Bool.false_eq_true, false_and]
    cases c.out with
    | none => exact ⟨_, rfl, fun _ _ h => by cases h⟩
    | some out =>
      cases c.err with
      | none => exact ⟨_, rfl, fun _ _ _ h => by cases h⟩
      | some err => exact ⟨_, rfl, fun _ _ ho he => ⟨Option.some.inj ho, Option.some.inj he⟩⟩

/-- What `do_fork` leaves open: nothing it opened is closed if it throws, else the ends of the child are. -/
theorem doFork_fds_eq (hk : k.MayStart c) (hp : p.state = .ready) (reg : Map ℤ ℕ) :
    (doFork H c r p k reg).kernel.fds =
      match c.out, c.err with
      | none, _ => k.fds
      | some out, none => out.1 :: out.2 :: k.fds
      | some out, some err =>
        if forkExn H c p = none then err.1 :: out.1 :: k.fds else err.1 :: err.2 :: out.1 :: out.2 :: k.fds := by
  obtain ⟨q, hopen, hq⟩ := opened_kernel c p k
  obtain ⟨q', k', hopen', henv, -⟩ := opened_spec H c p k
  rw [hopen, Prod.mk.injEq] at hopen'
  obtain ⟨rfl, -⟩ := hopen'
  unfold doFork forkExn
  rw [if_neg (not_not.mpr hp), hopen, ← henv]
  cases hout : c.out with
  | none =>
    rw [show openExn c p = some _ by rw [openExn, hout], Kernel.openPairs, hout]
  | some out =>
    cases herr : c.err with
    | none =>
      rw [show openExn c p = some _ by rw [openExn, hout, herr], Kernel.openPairs, hout, herr]
      rfl
    | some err =>
      have hfds : (k.openPairs c).fds = err.1 :: err.2 :: out.1 :: out.2 :: k.fds := by
        rw [Kernel.openPairs, hout, herr]
        rfl
      cases openExn c p with
      | some e => exact hfds.trans (if_neg fun h => by cases h).symm
      | none =>
        dsimp only
        cases handleEnv H q with
        | error e => exact hfds.trans (if_neg fun h => by cases h).symm
        | ok environment =>
          obtain ⟨hqo, hqe⟩ := hq out err hout herr
          obtain ⟨-, -, -, ho2, ho⟩ := hk.1 out hout
          obtain ⟨-, -, -, he2, he, hne⟩ := hk.2.1 err herr
          obtain ⟨h1, h2, h3, h4⟩ := hne out hout
          have hclosed : (forkChild c r environment q (k.openPairs c) reg).kernel.fds =
              ((k.openPairs c).fds.erase out.2).erase err.2 := by
            unfold forkChild
            rw [hqo, hqe]
            cases c.fork <;> rfl
          refine hclosed.trans ?_
          rw [hfds, if_pos rfl]
          simp [h2, h4, ho, he]

/-- The descriptors that refer to something are those that are open. -/
def SameOpen (T : Files) (fds : List ℤ) : Prop := ∀ fd, (T fd).isSome = true ↔ fd ∈ fds

theorem SameOpen.openPair {fds : List ℤ} (h : SameOpen T fds) (e : ℤ × ℤ) :
    SameOpen (T.openPair e) (e.1 :: e.2 :: fds) := by
  intro fd
  rw [Files.openPair_apply, List.mem_cons, List.mem_cons, ← h fd]
  split_ifs with h2 h1
  · simp [h2]
  · simp [h1]
  · simp [h1, h2]

/-- What `do_fork` opens and closes. -/
theorem SameOpen.attempt (h : SameOpen T k.fds) (hk : k.MayStart c) (hp : p.state = .ready) (reg : Map ℤ ℕ) :
    SameOpen (attemptFiles H c p T) (doFork H c r p k reg).kernel.fds := by
  rw [doFork_fds_eq hk hp]
  unfold attemptFiles
  cases hout : c.out with
  | none => exact h
  | some out =>
    cases herr : c.err with
    | none => exact h.openPair out
    | some err =>
      have hboth := (h.openPair out).openPair err
      dsimp only
      split_ifs
      · obtain ⟨-, -, -, ho2, ho⟩ := hk.1 out hout
        obtain ⟨-, -, -, he2, he, hne⟩ := hk.2.1 err herr
        obtain ⟨h1, h2, h3, h4⟩ := hne out hout
        intro fd
        rw [FileTable.close_apply, FileTable.close_apply]
        have hfd := hboth fd
        simp only [List.mem_cons] at hfd ⊢
        split_ifs with he' ho'
        · subst he'
          simp [Ne.symm he, h3, he2]
        · subst ho'
          simp [Ne.symm h2, Ne.symm ho, ho2]
        · rw [hfd]
          tauto
      · exact hboth

/-- The descriptors that are open after a turn of `start_programs`. -/
theorem start_fds (hs : step H s (.start c) = some s') : ∃ r, s.pc.turn = some r ∧ s.kernel.MayStart c ∧
    match startable s r with
    | none => s'.kernel = s.kernel
    | some p => s'.kernel.fds = (doFork H c r p s.kernel s.handler.idForPid).kernel.fds := by
  simp only [step] at hs
  split at hs
  swap
  · cases hs
  rename_i site r todo hpc
  simp only [Option.ite_none_right_eq_some, Option.some.injEq] at hs
  obtain ⟨hk, rfl⟩ := hs
  refine ⟨r, by rw [hpc]; rfl, hk, ?_⟩
  have hgoto : ∀ q : Sys × Option Exn, (Sys.goto q (.starting site todo)).kernel = q.1.kernel := fun q => by
    obtain ⟨u, _ | e⟩ := q <;> rfl
  rw [hgoto]
  cases hst : startable s r with
  | none => rw [startTurn_idle hst]
  | some p =>
    obtain ⟨hp, hr, hn⟩ := startable_eq_some.mp hst
    rw [startTurn_ready hp hr]
    unfold startProgram
    rw [if_neg hn]
    dsimp only
    cases (doFork H c r p s.kernel s.handler.idForPid).exn with
    | some e => rfl
    | none =>
      dsimp only
      unfold registerWithEpoll
      cases c.epollOut with
      | false => rfl
      | true => cases c.epollErr <;> rfl

/-- A fork belongs to a turn, and ends its attempt without an exception. -/
theorem attempt_of_fork (hfork : forkOf H s (.start c) = some r) :
    ∃ p, s.pc.turn = some r ∧ startable s r = some p ∧ forkExn H c p = none := by
  obtain ⟨c', site, todo, p, hl, hpc, hp, hr, hn, hexn⟩ := forkOf_eq_some hfork
  cases hl
  refine ⟨p, ?_, startable_eq_some.mpr ⟨hp, hr, hn⟩, (doFork_spec c _ _ hr _).1.symm.trans hexn⟩
  rw [hpc]
  rfl

/-- Only an attempt and `setup_signal_handlers` open or close anything. -/
theorem fds_of_effect (he : Effect H s l s') (hset : ∀ c, l ≠ .setup c) (hstart : ∀ c, l ≠ .start c) :
    s'.kernel.fds = s.kernel.fds := by
  cases he with
  | setup | setupFailed => exact absurd rfl (hset _)
  | skipped | threw | unregistered | forked => exact absurd rfl (hstart _)
  | notify | started | epollWait | reap | reapUnknown | reaped | output | hungUp | eventFailed | exitTest => rfl
  | @signalled c e batch n =>
    obtain ⟨k, q, hk, heq⟩ := signalReceived_eq n
      { s with kernel := { s.kernel with pending := s.kernel.pending.erase n } }
    obtain ⟨children, rfl⟩ := hk.same
    rw [heq]
  | act _ ha => exact (Kernel.acted ha).fds
  | @signal n => rcases deliver_cases H n s with ⟨p, hd⟩ | ⟨-, -, hd⟩ <;> rw [hd]

/-- The two descriptors of `setup_signal_handlers` are kept. -/
theorem loopFds_of_effect (he : Effect H s l s') (hpc : s.pc ≠ .setup) :
    s'.handler.signalFd = s.handler.signalFd ∧ s'.handler.epollFd = s.handler.epollFd := by
  cases he with
  | setup hset | setupFailed hset => exact absurd hset hpc
  | notify | skipped | threw | unregistered | forked | started | epollWait | reap | reapUnknown | reaped | output
  | hungUp | eventFailed | exitTest | act => exact ⟨rfl, rfl⟩
  | @signalled c e batch n =>
    obtain ⟨k, q, hk, heq⟩ := signalReceived_eq n
      { s with kernel := { s.kernel with pending := s.kernel.pending.erase n } }
    rw [heq]
    exact ⟨rfl, rfl⟩
  | signal => exact ⟨by rw [deliver_handler], by rw [deliver_handler]⟩

/-! ### What they refer to -/

/-- Opening a pair that is not open leaves the other descriptors. -/
theorem attemptFiles_of_open (hk : k.MayStart c) (hfd : fd ∈ k.fds) : attemptFiles H c p T fd = T fd := by
  have hpair : ∀ {T : Files} (e : ℤ × ℤ), e.1 ∉ k.fds → e.2 ∉ k.fds → T.openPair e fd = T fd := by
    intro T e h1 h2
    rw [Files.openPair_apply, if_neg fun h : fd = e.2 => h2 (h ▸ hfd), if_neg fun h : fd = e.1 => h1 (h ▸ hfd)]
  unfold attemptFiles
  cases hout : c.out with
  | none => rfl
  | some out =>
    obtain ⟨-, -, ho1, ho2, -⟩ := hk.1 out hout
    cases herr : c.err with
    | none => exact hpair out ho1 ho2
    | some err =>
      obtain ⟨-, -, he1, he2, -⟩ := hk.2.1 err herr
      dsimp only
      split
      · rw [FileTable.close_apply, if_neg fun h : fd = err.2 => he2 (h ▸ hfd), FileTable.close_apply,
          if_neg fun h : fd = out.2 => ho2 (h ▸ hfd), hpair err he1 he2, hpair out ho1 ho2]
      · rw [hpair err he1 he2, hpair out ho1 ho2]

theorem holds_openPair {e : ℤ × ℤ} {pipe : ℤ} (h : (T.openPair e).Holds (.writeEnd pipe)) :
    pipe = e.1 ∨ T.Holds (.writeEnd pipe) := by
  rcases FileTable.holds_of_opened h with h | h
  · exact Or.inl (File.writeEnd.inj h)
  · exact Or.inr ((FileTable.holds_of_opened h).resolve_left (by simp))

/-- The write ends that scinit holds after an attempt it held before, or it has just opened them. -/
theorem holds_attemptFiles {pipe : ℤ} (h : (attemptFiles H c p T).Holds (.writeEnd pipe)) :
    (∃ out, c.out = some out ∧ (pipe = out.1 ∨ ∃ err, c.err = some err ∧ pipe = err.1)) ∨
      T.Holds (.writeEnd pipe) := by
  unfold attemptFiles at h
  cases hout : c.out with
  | none =>
    rw [hout] at h
    exact Or.inr h
  | some out =>
    rw [hout] at h
    dsimp only at h
    cases herr : c.err with
    | none =>
      rw [herr] at h
      exact (holds_openPair h).imp_left fun h => ⟨out, rfl, Or.inl h⟩
    | some err =>
      rw [herr] at h
      dsimp only at h
      have hopen : ((T.openPair out).openPair err).Holds (.writeEnd pipe) := by
        split at h
        · exact FileTable.holds_of_close (FileTable.holds_of_close h)
        · exact h
      rcases holds_openPair hopen with h | h
      · exact Or.inl ⟨out, rfl, Or.inr ⟨err, rfl, h⟩⟩
      · exact (holds_openPair h).imp_left fun h => ⟨out, rfl, Or.inl h⟩

/-- After a fork scinit has the read ends of the child, and not the write ends. -/
theorem forkedFiles_apply (hk : k.MayStart c) (hout : c.out = some out) (herr : c.err = some err)
    (hfork : forkExn H c p = none) (fd : ℤ) : attemptFiles H c p T fd =
      if fd = out.2 ∨ fd = err.2 then none
      else if fd = out.1 then some ⟨.readEnd out.1, false⟩
      else if fd = err.1 then some ⟨.readEnd err.1, false⟩
      else T fd := by
  obtain ⟨-, -, -, -, ho⟩ := hk.1 out hout
  obtain ⟨-, -, -, -, he, hne⟩ := hk.2.1 err herr
  obtain ⟨h1, h2, h3, h4⟩ := hne out hout
  simp only [attemptFiles, hout, herr, hfork, if_true, FileTable.close_apply, Files.openPair_apply]
  by_cases h5 : fd = err.2
  · simp [h5]
  · by_cases h6 : fd = out.2
    · simp [h6]
    · by_cases h7 : fd = err.1
      · subst h7
        simp [h5, h6, h1]
      · simp [h5, h6, h7]

/-- The descriptors of scinit in a state of a run. -/
structure Filed (T : Files) (s : Sys) : Prop where
  isOpen : SameOpen T s.kernel.fds
  given : ∀ fd ∈ ([0, 1, 2] : List ℤ), T fd = some ⟨.given fd, false⟩
  loop : s.pc ≠ .setup → T s.handler.signalFd = some ⟨.signals, true⟩ ∧ T s.handler.epollFd = some ⟨.epoll, true⟩
  pipes : ∀ pipe, T.Holds (.writeEnd pipe) → pipe ∈ s.kernel.fds
  stream : ∀ (r : Ref) (p : ChildProcess) (type : FDType), s.objs[r]? = some p → p.started →
    T (p.readEnd type) = some ⟨.readEnd (p.readEnd type), false⟩ ∧ ¬ T.Holds (.writeEnd (p.readEnd type))

/-- A step that opens and closes nothing. -/
theorem Filed.kept (h : Filed T s) (hfds : s'.kernel.fds = s.kernel.fds)
    (hloop : s'.pc ≠ .setup → s.pc ≠ .setup ∧ s'.handler.signalFd = s.handler.signalFd ∧
      s'.handler.epollFd = s.handler.epollFd)
    (hobjs : ∀ (r : Ref) (p' : ChildProcess), s'.objs[r]? = some p' → p'.started →
      ∃ p, s.objs[r]? = some p ∧ p.started ∧ ∀ type, p'.readEnd type = p.readEnd type) : Filed T s' where
  isOpen := by
    rw [hfds]
    exact h.isOpen
  given := h.given
  loop := fun hpc => by
    obtain ⟨hpc, h1, h2⟩ := hloop hpc
    rw [h1, h2]
    exact h.loop hpc
  pipes := by
    rw [hfds]
    exact h.pipes
  stream := fun r p' type hp' hst => by
    obtain ⟨p, hp, hst, hend⟩ := hobjs r p' hp' hst
    rw [hend type]
    exact h.stream r p type hp hst

theorem mem_fds_of_apply (h : SameOpen T s.kernel.fds) {f : OpenFile File} (hf : T fd = some f) :
    fd ∈ s.kernel.fds := (h fd).mp (by rw [hf]; rfl)

theorem Filed.setup (h : Filed T s) {c : SetupCalls} {signalFd epollFd : ℤ} (hk : s.kernel.MaySetup c)
    (hsig : c.signalfd = some signalFd) (hepoll : c.epollCreate = some epollFd) :
    Filed ((T.opened signalFd .signals true).opened epollFd .epoll true) (s.setUp signalFd epollFd) := by
  obtain ⟨-, hsigfd⟩ := hk.1 signalFd hsig
  obtain ⟨-, hepollfd, hne⟩ := hk.2 epollFd hepoll
  have hne : signalFd ≠ epollFd := fun he => hne (he ▸ hsig)
  have hold : ∀ {fd : ℤ}, fd ∈ s.kernel.fds →
      ((T.opened signalFd .signals true).opened epollFd .epoll true) fd = T fd := fun {fd} hfd => by
    rw [FileTable.opened_apply, if_neg fun he : fd = epollFd => hepollfd (he ▸ hfd), FileTable.opened_apply,
      if_neg fun he : fd = signalFd => hsigfd (he ▸ hfd)]
  have hholds : ∀ pipe, ((T.opened signalFd .signals true).opened epollFd .epoll true).Holds (.writeEnd pipe) →
      T.Holds (.writeEnd pipe) := fun pipe hh =>
    (FileTable.holds_of_opened ((FileTable.holds_of_opened hh).resolve_left (by simp))).resolve_left (by simp)
  refine ⟨fun fd => ?_, fun fd hfd => ?_, fun _ => ⟨?_, ?_⟩, fun pipe hh => ?_, fun r p type hp hst => ?_⟩
  · show _ ↔ fd ∈ epollFd :: signalFd :: s.kernel.fds
    rw [List.mem_cons, List.mem_cons, ← h.isOpen fd, FileTable.opened_apply, FileTable.opened_apply]
    split_ifs with h1 h2
    · simp [h1]
    · simp [h2]
    · simp [h1, h2]
  · rw [hold (mem_fds_of_apply h.isOpen (h.given fd hfd))]
    exact h.given fd hfd
  · show ((T.opened signalFd .signals true).opened epollFd .epoll true) signalFd = _
    rw [FileTable.opened_apply, if_neg hne, FileTable.opened_apply, if_pos rfl]
  · show ((T.opened signalFd .signals true).opened epollFd .epoll true) epollFd = _
    rw [FileTable.opened_apply, if_pos rfl]
  · exact List.mem_cons_of_mem _ (List.mem_cons_of_mem _ (h.pipes pipe (hholds pipe hh)))
  · obtain ⟨hread, hno⟩ := h.stream r p type hp hst
    rw [hold (mem_fds_of_apply h.isOpen hread)]
    exact ⟨hread, fun hh => hno (hholds _ hh)⟩

/-- The write ends of a child are not held after its fork. -/
theorem not_holds_forked (hT : ∀ pipe, T.Holds (.writeEnd pipe) → pipe ∈ k.fds) (hk : k.MayStart c)
    (hout : c.out = some out) (herr : c.err = some err) (hfork : forkExn H c p = none) {pipe : ℤ}
    (hpipe : pipe = out.1 ∨ pipe = err.1) : ¬ (attemptFiles H c p T).Holds (.writeEnd pipe) := by
  rintro ⟨fd, f, hf, hfile⟩
  rw [forkedFiles_apply hk hout herr hfork] at hf
  obtain ⟨-, -, ho1, -⟩ := hk.1 out hout
  obtain ⟨-, -, he1, -⟩ := hk.2.1 err herr
  split at hf
  · cases hf
  · split at hf
    · cases hf
      cases hfile
    · split at hf
      · cases hf
        cases hfile
      · have hin := hT pipe ⟨fd, f, hf, hfile⟩
        rcases hpipe with rfl | rfl
        · exact ho1 hin
        · exact he1 hin

/-- A started process was started before the step, and has its descriptors, or is forked by it. -/
theorem readEnd_of_effect (hw : WellFormed base) (hi : Ids base s) (he : Effect H s l s') (hp' : s'.objs[r]? = some p')
    (hst : p'.started) : (∃ p, s.objs[r]? = some p ∧ p.started ∧ ∀ type, p'.readEnd type = p.readEnd type) ∨
      forkOf H s l = some r := by
  rcases started_of_effect hw hi he hp' hst with ⟨p, hp, hst, hout, herr, -⟩ | ⟨c, -, hf, -⟩
  · refine Or.inl ⟨p, hp, hst, fun type => ?_⟩
    cases type with
    | stdout => exact congrArg Prod.fst hout
    | stderr => exact congrArg Prod.fst herr
  · exact Or.inr hf

/-- The read ends of a fork stay open, and scinit has no write end of them. -/
theorem filed_forked (hT : ∀ pipe, T.Holds (.writeEnd pipe) → pipe ∈ k.fds) (hk : k.MayStart c)
    (hout : c.out = some out) (herr : c.err = some err) (hexn : forkExn H c p = none)
    (hfd : fd = out.1 ∨ fd = err.1) :
    attemptFiles H c p T fd = some ⟨.readEnd fd, false⟩ ∧ ¬ (attemptFiles H c p T).Holds (.writeEnd fd) := by
  refine ⟨?_, not_holds_forked hT hk hout herr hexn hfd⟩
  obtain ⟨-, -, -, -, ho⟩ := hk.1 out hout
  obtain ⟨-, -, -, -, he, hne⟩ := hk.2.1 err herr
  obtain ⟨h1, h2, h3, h4⟩ := hne out hout
  rw [forkedFiles_apply hk hout herr hexn]
  rcases hfd with rfl | rfl
  · rw [if_neg (by simp [ho, Ne.symm h3]), if_pos rfl]
  · rw [if_neg (by simp [h2, he]), if_neg h1, if_pos rfl]

/-- A pipe whose write end it has after an attempt it reads from as well. -/
theorem mem_fds_of_holds_attempt (hT : ∀ pipe, T.Holds (.writeEnd pipe) → pipe ∈ k.fds) (hk : k.MayStart c)
    (hr : p.state = .ready) (reg : Map ℤ ℕ) {pipe : ℤ} (hh : (attemptFiles H c p T).Holds (.writeEnd pipe)) :
    pipe ∈ (doFork H c r p k reg).kernel.fds := by
  rw [doFork_fds_eq hk hr]
  rcases holds_attemptFiles hh with ⟨out, hout, rfl | ⟨err, herr, rfl⟩⟩ | hh
  · rw [hout]
    cases c.err with
    | none => simp
    | some err =>
      dsimp only
      split <;> simp
  · rw [hout, herr]
    dsimp only
    split <;> simp
  · have hin := hT pipe hh
    cases c.out with
    | none => exact hin
    | some out =>
      cases c.err with
      | none => exact List.mem_cons_of_mem _ (List.mem_cons_of_mem _ hin)
      | some err =>
        dsimp only
        split <;> simp [hin]

/-- The attempt of a process that can be started. -/
theorem Filed.attempt (h : Filed T s) (hrun : Runs H progs tr s) (hs : step H s (.start c) = some s')
    (ht : s'.pc.isThrown = false) (hturn : s.pc.turn = some r) (hst : startable s r = some p)
    (hk : s.kernel.MayStart c)
    (hfds : s'.kernel.fds = (doFork H c r p s.kernel s.handler.idForPid).kernel.fds) :
    Filed (attemptFiles H c p T) s' := by
  obtain ⟨hi, hf, he⟩ := run_effect hrun hs
  obtain ⟨hp, hr, hn⟩ := startable_eq_some.mp hst
  have hset : s.pc ≠ .setup := fun hpc => by
    rw [hpc] at hturn
    cases hturn
  have hold : ∀ {fd : ℤ}, fd ∈ s.kernel.fds → attemptFiles H c p T fd = T fd := fun hfd =>
    attemptFiles_of_open hk hfd
  refine ⟨?_, fun fd hfd => ?_, fun _ => ?_, fun pipe hh => ?_, fun r' p' type hp' hst' => ?_⟩
  · rw [hfds]
    exact h.isOpen.attempt hk hr _
  · rw [hold (mem_fds_of_apply h.isOpen (h.given fd hfd))]
    exact h.given fd hfd
  · obtain ⟨h1, h2⟩ := loopFds_of_effect he hset
    obtain ⟨h3, h4⟩ := h.loop hset
    rw [h1, h2, hold (mem_fds_of_apply h.isOpen h3), hold (mem_fds_of_apply h.isOpen h4)]
    exact ⟨h3, h4⟩
  · rw [hfds]
    exact mem_fds_of_holds_attempt h.pipes hk hr _ hh
  · rcases readEnd_of_effect (boot_wellFormed H progs) hi he hp' hst' with ⟨p₀, hp₀, hst₀, hend⟩ | hfork
    · obtain ⟨hread, hno⟩ := h.stream r' p₀ type hp₀ hst₀
      have hin := mem_fds_of_apply h.isOpen hread
      rw [hend, hold hin]
      refine ⟨hread, fun hh => ?_⟩
      rcases holds_attemptFiles hh with ⟨out, hout, heq | ⟨err, herr, heq⟩⟩ | hh
      · exact (hk.1 out hout).2.2.1 (heq ▸ hin)
      · exact (hk.2.1 err herr).2.2.1 (heq ▸ hin)
      · exact hno hh
    · obtain ⟨c', site, todo, p₁, out, err, b, b', environment, hl, hpc, hp₁, -, -, hout, herr, -, rfl⟩ :=
        forked_of_forkOf he ht hfork
      cases hl
      obtain rfl : r = r' := by
        rw [hpc] at hturn
        exact (Option.some.inj hturn).symm
      rw [hp, Option.some.injEq] at hp₁
      subst hp₁
      obtain ⟨p₂, -, hst₂, hexn⟩ := attempt_of_fork hfork
      obtain rfl := Option.some.inj (hst.symm.trans hst₂)
      rcases getElem?_set_cases hp hp' with ⟨-, rfl⟩ | ⟨hne, -⟩
      · refine filed_forked h.pipes hk hout herr hexn ?_
        cases type with
        | stdout => exact Or.inl rfl
        | stderr => exact Or.inr rfl
      · exact absurd rfl hne

theorem Filed.step (h : Filed T s) (hrun : Runs H progs tr s) (hs : step H s l = some s')
    (ht : s'.pc.isThrown = false) : Filed (stepFiles H T s l) s' := by
  obtain ⟨hi, hf, he⟩ := run_effect hrun hs
  have hkept : (∀ c, l ≠ .setup c) → s'.kernel.fds = s.kernel.fds → (∀ r, forkOf H s l ≠ some r) → Filed T s' := by
    intro hset hfds hno
    refine h.kept hfds (fun hpc' => ?_) fun r p' hp' hst => ?_
    · have hpc : s.pc ≠ .setup := fun hpc => by
        cases he with
        | setup => exact hset _ rfl
        | setupFailed => exact hset _ rfl
        | act => exact hpc' hpc
        | reapUnknown => exact hpc' hpc
        | signal _ hne => exact hne hpc
        | notify hpc₁ | skipped hpc₁ | threw hpc₁ | unregistered hpc₁ | forked hpc₁ | started hpc₁ | epollWait hpc₁
        | reap hpc₁ | reaped hpc₁ | signalled hpc₁ | output hpc₁ | hungUp hpc₁ | eventFailed hpc₁ | exitTest hpc₁ =>
          rw [hpc] at hpc₁
          cases hpc₁
      exact ⟨hpc, loopFds_of_effect he hpc⟩
    · exact (readEnd_of_effect (boot_wellFormed H progs) hi he hp' hst).resolve_right (hno r)
  cases l with
  | setup c =>
    have hok : failure H s (.setup c) = none := by
      rw [Option.eq_none_iff_forall_ne_some]
      intro e hfail
      rw [(thrown_iff hrun hs).mpr hfail] at ht
      cases ht
    simp only [failure, ite_eq_left_iff, reduceCtorEq, imp_false, not_not] at hok
    cases he with
    | setup hpc hk hsig hepoll =>
      simp only [stepFiles, setupFiles, hok.1, hsig, hepoll, Bool.not_true, Bool.false_eq_true, if_false]
      exact h.setup hk hsig hepoll
    | setupFailed => cases ht
  | start c =>
    obtain ⟨r, hturn, hk, hfds⟩ := start_fds hs
    cases hst : startable s r with
    | none =>
      rw [hst] at hfds
      have hno : ∀ r', forkOf H s (.start c) ≠ some r' := fun r' hfork => by
        obtain ⟨p, hturn', hst', -⟩ := attempt_of_fork hfork
        obtain rfl := Option.some.inj (hturn.symm.trans hturn')
        rw [hst] at hst'
        cases hst'
      simp only [stepFiles, hturn, Option.bind_some, hst]
      exact hkept (fun _ hl => by cases hl) (congrArg Kernel.fds hfds) hno
    | some p =>
      rw [hst] at hfds
      simp only [stepFiles, hturn, Option.bind_some, hst]
      exact h.attempt hrun hs ht hturn hst hk hfds
  | notify | started | epollWait | reap | reaped | event | exitTest | act | signal =>
    refine hkept (fun _ hl => by cases hl) (fds_of_effect he (fun _ hl => by cases hl) fun _ hl => by cases hl) ?_
    intro r hfork
    obtain ⟨_, _, _, _, hl, -⟩ := forkOf_eq_some hfork
    cases hl

/-- **The descriptors of scinit**, in every state of a run. -/
theorem run_filed (h : Runs H progs tr s) (ht : s.pc.isThrown = false) : Filed (filesOf H tr) s := by
  induction h with
  | refl =>
    refine ⟨fun fd => ?_, fun fd hfd => if_pos hfd, fun hpc => absurd (boot_pc H progs) hpc, ?_, fun r p _ hp hst =>
      absurd hst (boot_not_running hp).2⟩
    · rw [boot_kernel]
      show (Files.standard fd).isSome = true ↔ fd ∈ ([0, 1, 2] : List ℤ)
      unfold Files.standard
      split <;> simp_all
    · rintro pipe ⟨fd, f, hf, hfile⟩
      simp only [filesOf, List.foldl_nil, Files.standard, Option.ite_none_right_eq_some, Option.some.injEq] at hf
      rw [← hf.2] at hfile
      cases hfile
  | @snoc tr s s' l h hs ih =>
    rw [filesOf, List.foldl_append]
    exact (ih (not_thrown_of_step hs)).step h hs ht

end Scinit
