/-
# The event loop can come to an end

From every state that a run gets to, scinit can still return, if it does not
wait for a child that does not exist: let nothing go wrong from now on (`Smooth`)
and every child exit. Each round then reaps all children, and returns, or starts a
process that was never started. A fork that failed unnoticed is waited for
forever, so it is exactly the runs without one that can return
(`can_return_iff`). And in any run whatever, a round that finds no child running
ends scinit or starts a process, so there are few of them (`idle_rounds`).

Key definitions: `Smooth`, `Smoothly`, `Sound`, `Leads`, `Grows`, `idle`.
Key theorems: `exists_report`, `grows_call`, `leads_round`, `can_return_iff`, `idle_rounds`.
-/
import Scinit.Shutdown
import Scinit.HostVars

namespace Scinit

open Transition

variable {H : Host} {progs : List Program} {tr : List (Sys × Label)} {s s' s'' : Sys} {l : Label}
  {c : StartCalls} {batch : List Event}

/-! ### When nothing goes wrong -/

/-- A report leaves out something to be told of only where its buffer is full. -/
def Kernel.ReportsAll (k : Kernel) (signalFd : ℤ) (batch : List Event) : Prop :=
  batch.length = maxEvents ∨ ∀ e, k.MayReport signalFd e → e ∈ batch

/-- The answers where all that is there is read, as far as the buffer goes. -/
def Kernel.answer (k : Kernel) (fd : ℤ) : EventCalls where
  signal := k.pending.head?
  nread := some (min bufSize (k.unread fd).length)
  epollDel := true

theorem Kernel.mayAnswer_answer (k : Kernel) (fd : ℤ) : k.MayAnswer fd (k.answer fd) := by
  refine ⟨fun n hn => List.mem_of_mem_head? hn, fun n hn => ?_⟩
  obtain rfl := Option.some.inj hn
  exact ⟨min_le_left _ _, min_le_right _ _⟩

/-- Nothing goes wrong: every call succeeds, `epoll_wait` reports and `read` returns all
that there is, as far as their buffers go, `waitpid` leaves no child that has exited,
and no signal is sent to scinit. -/
def Smooth (s : Sys) : Label → Prop
  | .setup c => c.sigprocmask = true ∧ c.signalfd.isSome = true ∧ c.epollCreate.isSome = true ∧ c.epollCtl = true
  | .start c => c.out.isSome = true ∧ c.err.isSome = true ∧ c.fork.isSome = true ∧ c.epollOut = true ∧
      c.epollErr = true ∧ ∀ fd, (c.ttyname fd).isOk = true
  | .epollWait batch => s.kernel.ReportsAll s.handler.signalFd batch
  | .reaped => ∀ (pid : ℤ) (ch : Child), s.kernel.children[pid]? = some ch → ch.status = none
  | .event c => ∀ e ∈ s.pc.batch.head?, c = s.kernel.answer e.fd
  | .signal _ => False
  | .notify | .started | .reap _ _ | .exitTest | .act _ => True

/-- A run leads there in which nothing goes wrong. -/
abbrev Smoothly (H : Host) : Sys → Sys → Prop := ReachesBy (step H) Smooth

/-- What is told of a descriptor. -/
def Kernel.report (k : Kernel) (signalFd fd : ℤ) : Event where
  fd := fd
  epollin := if fd = signalFd then k.pending ≠ [] else k.unread fd ≠ []
  epollhup := fd ≠ signalFd ∧ (k.pipes[fd]?.map Pipe.writers) = some false

theorem Kernel.MayReport.eq_report {k : Kernel} {signalFd : ℤ} {e : Event} (h : k.MayReport signalFd e) :
    e = k.report signalFd e.fd := by
  obtain ⟨fd, epollin, epollhup⟩ := e
  obtain ⟨-, -, h⟩ := h
  by_cases hfd : fd = signalFd
  · simp only [hfd, if_true] at h
    simp [Kernel.report, hfd, h.1.symm, h.2]
  · simp only [hfd, if_false] at h
    simp [Kernel.report, hfd, h.1.symm, h.2.symm]

/-- All that there is to be told of. -/
def Kernel.reports (k : Kernel) (signalFd : ℤ) : List Event :=
  (k.epoll.dedup.map (k.report signalFd)).filter fun e => k.MayReport signalFd e

theorem Kernel.mem_reports {k : Kernel} {signalFd : ℤ} {e : Event} :
    e ∈ k.reports signalFd ↔ k.MayReport signalFd e := by
  rw [Kernel.reports, List.mem_filter, decide_eq_true_eq, and_iff_right_iff_imp]
  exact fun he => List.mem_map.mpr ⟨e.fd, List.mem_dedup.mpr he.1, he.eq_report.symm⟩

theorem Kernel.nodup_reports (k : Kernel) (signalFd : ℤ) : ((k.reports signalFd).map Event.fd).Nodup := by
  have hfds : (k.epoll.dedup.map (k.report signalFd)).map Event.fd = k.epoll.dedup := by
    rw [List.map_map]
    exact List.map_id _
  have hsub : ((k.reports signalFd).map Event.fd).Sublist k.epoll.dedup := hfds ▸ List.filter_sublist.map Event.fd
  exact hsub.nodup (List.nodup_dedup _)

/-- Some report leaves nothing out. -/
theorem exists_report (k : Kernel) (signalFd : ℤ) :
    ∃ batch, k.MayReportAll signalFd batch ∧ k.ReportsAll signalFd batch := by
  refine ⟨(k.reports signalFd).take maxEvents, ⟨List.length_take_le _ _, ?_, fun e he => ?_⟩, ?_⟩
  · exact ((List.take_sublist _ _).map _).nodup (k.nodup_reports signalFd)
  · exact Kernel.mem_reports.mp (List.mem_of_mem_take he)
  · by_cases hle : (k.reports signalFd).length ≤ maxEvents
    · exact Or.inr fun e he => (List.take_of_length_le hle).symm ▸ Kernel.mem_reports.mpr he
    · exact Or.inl (by rw [List.length_take]; omega)

/-! ### What an attempt throws -/

/-- A loop that throws throws what one of its turns throws. -/
theorem foldlM_error {ε α β : Type} {f : β → α → Except ε β} {e : ε} : ∀ {l : List α} {b : β},
    l.foldlM f b = .error e → ∃ a ∈ l, ∃ b', f b' a = .error e
  | [], b, h => by cases h
  | a :: l, b, h => by
    rw [List.foldlM_cons] at h
    cases hf : f b a with
    | error e' =>
      rw [hf] at h
      cases h
      exact ⟨a, List.mem_cons_self, b, hf⟩
    | ok b' =>
      rw [hf] at h
      obtain ⟨a', ha', hb'⟩ := foldlM_error (l := l) (b := b') h
      exact ⟨a', List.mem_cons_of_mem _ ha', hb'⟩

/-- Where no variable of the host begins with `=`, `handle_env` throws what `start_programs` catches. -/
theorem isStdException_of_handleEnv (hhost : ∀ var ∈ H.environ, var.head? ≠ some '=') {p : ChildProcess} {e : Exn}
    (h : handleEnv H p = .error e) : e.isStdException = true := by
  unfold handleEnv envVars at h
  rw [scanEnviron_eq hhost] at h
  dsimp only at h
  split at h
  · rename_i e' he'
    cases h
    obtain ⟨pair, -, vars, hpair⟩ := foldlM_error he'
    unfold addExtraVar at hpair
    split at hpair
    · cases hpair
    · cases hpair
      rfl
  · cases h

/-- An attempt whose calls succeed throws at most what is caught. -/
theorem not_escapes (hhost : ∀ var ∈ H.environ, var.head? ≠ some '=') (fd pid : ℤ) (s : Sys) (r : Ref) :
    escapes H (fun _ => attemptOk fd pid) s r = false := by
  have hopen : ∀ p, openExn (attemptOk fd pid) p = none := fun p => if_neg fun h => h.2 rfl
  have hreg : registerExn (attemptOk fd pid) = none := rfl
  unfold escapes
  cases hs : startable s r with
  | none => rfl
  | some p =>
    rw [Option.any_some, attemptExn, hreg, Option.or_none]
    unfold forkExn
    rw [hopen]
    cases henv : handleEnv H p with
    | ok environment => rfl
    | error e => simp [isStdException_of_handleEnv hhost henv]

/-! ### The signal that is reported is there -/

/-- A batch that reports the signal descriptor was read when a signal was pending. -/
def Reported (s : Sys) : Prop := ∀ e ∈ s.pc.batch, e.fd = s.handler.signalFd → s.kernel.pending ≠ []

theorem pending_enqueue (k : Kernel) (n : ℕ) (h : k.pending ≠ []) : (k.enqueue n).pending ≠ [] := by
  unfold Kernel.enqueue
  split
  · simp
  · exact h

theorem pending_act {k k' : Kernel} {a : Act} (ha : k.act a = some k') (h : k.pending ≠ []) : k'.pending ≠ [] := by
  cases a with
  | write pid stream bytes =>
    simp only [Kernel.act] at ha
    split at ha
    · cases ha
    · split at ha
      · cases ha
      · simp only [Option.ite_none_right_eq_some, Option.some.injEq] at ha
        obtain ⟨-, rfl⟩ := ha
        exact h
  | exit pid status =>
    simp only [Kernel.act] at ha
    split at ha
    · cases ha
    · simp only [Option.ite_none_right_eq_some, Option.some.injEq] at ha
      obtain ⟨-, rfl⟩ := ha
      exact pending_enqueue _ _ h
  | hangup fd =>
    simp only [Kernel.act] at ha
    split at ha
    · cases ha
    · cases ha
      exact h

theorem Reported.step (hf : Fds s) (h : Reported s) (he : Effect H s l s') : Reported s' := by
  have hnone : ∀ {s' : Sys}, s'.pc.batch = [] → Reported s' := fun hb e hm => by
    rw [hb] at hm
    cases hm
  cases he with
  | setup | setupFailed | notify | skipped | unregistered | forked | eventFailed => exact hnone rfl
  | threw _ _ _ _ _ hpc =>
    rcases hpc with rfl | ⟨e, rfl⟩ <;> exact hnone rfl
  | started => exact hnone (afterStart_batch _ _).2
  | exitTest => exact hnone (afterBatch_batch _).2
  | epollWait hpc hk =>
    intro e hm hfd
    have hrep := (hk.2.2 e hm).2
    rw [if_pos hfd] at hrep
    obtain ⟨hflag, hin, hhup⟩ := hrep
    exact hin.mp (hflag.resolve_right (by rw [hhup]; decide))
  | reap | reapUnknown => exact h
  | reaped hpc =>
    have h : ∀ e ∈ s.pc.batch, _ := h
    rw [hpc] at h
    exact h
  | @signalled c e batch n hpc hfd =>
    -- the one entry for the signal descriptor is taken off the batch
    intro e' hm hfd'
    have hnd := hf.batch.1
    rw [hpc] at hnd
    have hfd' : e'.fd = s.handler.signalFd := by
      obtain ⟨k, q, -, heq⟩ := signalReceived_eq n
        { s with kernel := { s.kernel with pending := s.kernel.pending.erase n } }
      rw [heq] at hfd'
      exact hfd'
    simp only [Pc.batch, List.map_cons, List.nodup_cons] at hnd
    exact absurd (List.mem_map.mpr ⟨e', hm, hfd'.trans hfd.symm⟩) hnd.1
  | output hpc =>
    have h : ∀ e ∈ s.pc.batch, _ := h
    rw [hpc] at h
    exact fun e hm => h e (List.mem_cons_of_mem _ hm)
  | hungUp hpc =>
    have h : ∀ e ∈ s.pc.batch, _ := h
    rw [hpc] at h
    exact fun e hm => h e (List.mem_cons_of_mem _ hm)
  | act _ ha => exact fun e hm hfd => pending_act ha (h e hm hfd)
  | @signal n =>
    unfold deliver
    split
    · exact fun e hm hfd => pending_enqueue _ _ (h e hm hfd)
    · split
      · exact h
      · exact hnone rfl

theorem run_reported (h : Runs H progs tr s) : Reported s :=
  run_inv_of (C := fun _ _ => True) (fun e hm => by simp [boot_pc, Pc.batch] at hm)
    (fun _ _ _ _ hf hI _ he => hI.step hf he) h fun _ _ => trivial

/-- Where nothing has gone wrong, what is pending is that children have exited. -/
theorem pending_of_smoothly (h : Smoothly H (boot H progs) s) : ∀ n ∈ s.kernel.pending, n = sigChld := by
  obtain ⟨tr, hrun, hsm⟩ := h
  refine run_inv_of (I := fun s => ∀ n ∈ s.kernel.pending, n = sigChld) (C := Smooth) ?_
    (fun s l s' _ _ hI hC he n hn => ?_) hrun hsm
  · rw [boot_kernel]
    exact List.forall_mem_nil _
  · rcases pending_of_effect he hn with hn | hn | ⟨rfl, -⟩
    · exact hI n hn
    · exact hn
    · exact hC.elim

/-! ### Steps that lose no fork -/

/-- A state that a run gets to without losing a fork. -/
structure Sound (H : Host) (progs : List Program) (s : Sys) : Prop where
  reached : ∃ tr, Runs H progs tr s
  surplus : surplus s = 0

/-- How many processes were not started yet. -/
noncomputable def left (H : Host) (progs : List Program) (s : Sys) : ℕ :=
  Supervisor.unstarted (statesOf (boot H progs).objs.length s)

/-- Steps in which nothing goes wrong lead from one state to the other, and lose no fork. -/
structure Leads (H : Host) (progs : List Program) (s s' : Sys) : Prop where
  smoothly : Smoothly H s s'
  sound : Sound H progs s'
  left_le : left H progs s' ≤ left H progs s

/-- They end no process: if none is started, the count stays. -/
structure Grows (H : Host) (progs : List Program) (s s' : Sys) : Prop extends Leads H progs s s' where
  count : left H progs s' = left H progs s →
    s'.handler.numberOfRunningProcs = s.handler.numberOfRunningProcs

theorem Leads.trans (h : Leads H progs s s') (h' : Leads H progs s' s'') : Leads H progs s s'' := by
  exact ⟨h.smoothly.trans h'.smoothly, h'.sound, h'.left_le.trans h.left_le⟩

theorem Grows.refl (hs : Sound H progs s) : Grows H progs s s := ⟨⟨.refl, hs, le_rfl⟩, fun _ => rfl⟩

theorem Grows.trans (h : Grows H progs s s') (h' : Grows H progs s' s'') : Grows H progs s s'' := by
  refine ⟨h.toLeads.trans h'.toLeads, fun heq => ?_⟩
  have h1 := h.left_le
  have h2 := h'.left_le
  rw [h'.count (by omega), h.count (by omega)]

theorem left_le_of_step (h : Runs H progs tr s) (hs : step H s l = some s') : left H progs s' ≤ left H progs s := by
  obtain ⟨hi, -, he⟩ := run_effect h hs
  exact Supervisor.unstarted_le (effect_refines (boot_wellFormed H progs) hi he)

theorem left_lt_of_fork (h : Runs H progs tr s) (hs : step H s l = some s') {r : Ref}
    (hf : forkOf H s l = some r) : left H progs s' < left H progs s := by
  obtain ⟨hi, -, he⟩ := run_effect h hs
  obtain ⟨hlt, hact⟩ := actOf_start h hs hf
  have href := effect_refines (boot_wellFormed H progs) hi he
  rw [hact] at href
  exact Supervisor.unstarted_lt href

theorem Sound.leads (h : Sound H progs s) (hs : step H s l = some s') (ht : s'.pc.isThrown = false)
    (hno : ¬ LostFork H s l) (hsm : Smooth s l) : Leads H progs s s' := by
  obtain ⟨tr, hrun⟩ := h.reached
  obtain ⟨-, -, he⟩ := run_effect hrun hs
  refine ⟨.single hs hsm, ⟨⟨_, hrun.snoc hs⟩, ?_⟩, left_le_of_step hrun hs⟩
  rw [surplus_step he ht, if_neg hno, h.surplus, add_zero]

/-- A step that is no fork and reaps nobody keeps the count. -/
theorem count_of_effect (he : Effect H s l s') (hl : ∀ pid rc, l ≠ .reap pid rc) :
    (∃ r, forkOf H s l = some r) ∨ s'.handler.numberOfRunningProcs = s.handler.numberOfRunningProcs := by
  cases he with
  | setup | setupFailed | notify | skipped | threw | started | epollWait | reaped | output | hungUp | eventFailed
  | exitTest | act => exact Or.inr rfl
  | unregistered hpc hp hr hn _ _ _ hexn | forked hpc hp hr hn _ _ _ hexn =>
    exact Or.inl ⟨_, forkOf_of_exn hpc hp hr hn hexn⟩
  | reap | reapUnknown => exact absurd rfl (hl _ _)
  | signalled => exact Or.inr (signalReceived_numberOfRunningProcs _ _)
  | signal => exact Or.inr (by rw [deliver_handler])

theorem Sound.grows (h : Sound H progs s) (hs : step H s l = some s') (ht : s'.pc.isThrown = false)
    (hno : ¬ LostFork H s l) (hsm : Smooth s l) (hl : ∀ pid rc, l ≠ .reap pid rc) : Grows H progs s s' := by
  refine ⟨h.leads hs ht hno hsm, fun heq => ?_⟩
  obtain ⟨tr, hrun⟩ := h.reached
  obtain ⟨-, -, he⟩ := run_effect hrun hs
  refine (count_of_effect he hl).resolve_left ?_
  rintro ⟨r, hf⟩
  have hlt := left_lt_of_fork hrun hs hf
  omega

/-- Only a start attempt can lose a fork. -/
theorem not_lostFork (hl : ∀ c, l ≠ .start c) : ¬ LostFork H s l := by
  rintro ⟨c, -, -, -, -, hc, -⟩
  exact hl c hc

/-! ### A call of start_programs -/

section

variable {site : Site} {todo : List Ref} {r : Ref}

/-- A turn whose calls succeed goes on with the next. -/
theorem grows_turn (hhost : ∀ var ∈ H.environ, var.head? ≠ some '=') (h : Sound H progs s)
    (hpc : s.pc = .starting site (r :: todo)) : ∃ s', Grows H progs s s' ∧ s'.pc = .starting site todo := by
  obtain ⟨fd, pid, hk⟩ := exists_mayStart s.kernel
  have hs : step H s (.start (attemptOk fd pid)) =
      some (Sys.goto (startTurn H (attemptOk fd pid) r s) (.starting site todo)) := by
    simp only [step, hpc, hk, if_true]
  have hexn : (startTurn H (attemptOk fd pid) r s).2 = none := by
    have hnot := (@turn_exn H s r fun _ => attemptOk fd pid).trans (not_escapes hhost fd pid s r)
    exact Option.isNone_iff_eq_none.mp (by rw [← Option.not_isSome, hnot]; rfl)
  have hgo : (Sys.goto (startTurn H (attemptOk fd pid) r s) (.starting site todo)).pc = .starting site todo := by
    rw [Sys.goto, hexn]
  have hno : ¬ LostFork H s (.start (attemptOk fd pid)) := by
    rintro ⟨c, -, -, -, -, hc, -, -, -, -, -, hf, -⟩
    cases hc
    cases hf
  have hsm : Smooth s (.start (attemptOk fd pid)) := ⟨rfl, rfl, rfl, rfl, rfl, fun _ => rfl⟩
  exact ⟨_, h.grows hs (by rw [hgo]; rfl) hno hsm fun _ _ hl => (by cases hl), hgo⟩

theorem grows_turns (hhost : ∀ var ∈ H.environ, var.head? ≠ some '=') :
    ∀ (todo : List Ref) {s : Sys}, Sound H progs s → s.pc = .starting site todo →
      ∃ s', Grows H progs s s' ∧ s'.pc = .starting site []
  | [], s, h, hpc => ⟨s, .refl h, hpc⟩
  | r :: todo, s, h, hpc => by
    obtain ⟨m, hm, hpcm⟩ := grows_turn hhost h hpc
    obtain ⟨s', hs', hpc'⟩ := grows_turns hhost todo hm.sound hpcm
    exact ⟨s', hm.trans hs', hpc'⟩

/-- A call comes to its end. -/
theorem grows_starting (hhost : ∀ var ∈ H.environ, var.head? ≠ some '=') (h : Sound H progs s)
    (hpc : s.pc = .starting site todo) : ∃ s', Grows H progs s s' ∧ s'.pc = afterStart site s' := by
  obtain ⟨m, h1, hpcm⟩ := grows_turns hhost todo h hpc
  have hstarted : step H m .started = some { m with pc := afterStart site m } := by
    simp only [step, hpcm]
  have ht : (afterStart site m).isThrown = false := by
    rcases afterStart_cases site m with ⟨-, h⟩ | ⟨-, -, h⟩ | ⟨-, h⟩ <;> rw [h] <;> rfl
  have h2 := h1.sound.grows hstarted ht (not_lostFork fun _ hl => by cases hl) trivial fun _ _ hl => by cases hl
  refine ⟨_, h1.trans h2, ?_⟩
  cases site <;> rfl

theorem grows_call (hhost : ∀ var ∈ H.environ, var.head? ≠ some '=') (h : Sound H progs s)
    (hpc : s.pc = .notify site) : ∃ s', Grows H progs s s' ∧ s'.pc = afterStart site s' := by
  have hnotify : step H s .notify = some { notifyAll s with pc := .starting site s.handler.allObjs } := by
    simp only [step, hpc]
  have h1 := h.grows hnotify rfl (not_lostFork fun _ hl => by cases hl) trivial fun _ _ hl => by cases hl
  obtain ⟨s', h2, hpc'⟩ := grows_starting hhost h1.sound rfl
  exact ⟨s', h1.trans h2, hpc'⟩

/-- After it scinit has returned, or a further call leads to `epoll_wait`. -/
theorem grows_polling (hhost : ∀ var ∈ H.environ, var.head? ≠ some '=') (h : Sound H progs s)
    (hpc : s.pc = afterStart site s) : ∃ s', Grows H progs s s' ∧ (s'.pc = .returned 0 ∨ s'.pc = .polling) := by
  rcases afterStart_cases site s with ⟨-, hat⟩ | ⟨-, -, hat⟩ | ⟨-, hat⟩
  · exact ⟨s, .refl h, Or.inr (hpc.trans hat)⟩
  · exact ⟨s, .refl h, Or.inl (hpc.trans hat)⟩
  · obtain ⟨s', hs', hpc'⟩ := grows_call hhost h (hpc.trans hat)
    exact ⟨s', hs', Or.inr hpc'⟩

end

/-! ### A round -/

theorem goto_pc {q : Sys × Option Exn} {pc : Pc} (h : (Sys.goto q pc).pc.isThrown = false) :
    (Sys.goto q pc).pc = pc := by
  obtain ⟨s, _ | e⟩ := q
  · rfl
  · cases h

/-- An event can be handled: what is reported can be read. -/
theorem exists_event (h : Runs H progs tr s) {e : Event} (hpc : s.pc = .handling (e :: batch)) :
    ∃ c s', Smooth s (.event c) ∧ step H s (.event c) = some s' ∧ s'.pc = .handling batch := by
  have hsm : Smooth s (.event (s.kernel.answer e.fd)) := fun e' he' => by
    rw [hpc] at he'
    obtain rfl := Option.some.inj he'
    rfl
  have hs : step H s (.event (s.kernel.answer e.fd)) =
      some (Sys.goto (eventReceived e (s.kernel.answer e.fd) s) (.handling batch)) := by
    simp only [step, hpc, Kernel.mayAnswer_answer, if_true]
  obtain ⟨-, -, he⟩ := run_effect h hs
  refine ⟨_, _, hsm, hs, goto_pc ?_⟩
  by_contra ht
  obtain ⟨e', batch', hpc', hor⟩ := thrown_event he (Bool.not_eq_false _ ▸ ht)
  rw [hpc] at hpc'
  cases hpc'
  rcases hor with ⟨hfd, hnone⟩ | ⟨-, hdel⟩
  · refine run_reported h e ?_ hfd (List.head?_eq_none_iff.mp hnone)
    rw [hpc]
    exact List.mem_cons_self
  · cases hdel

/-- The events of a batch are handled one after the other. -/
theorem grows_events : ∀ (batch : List Event) {s : Sys}, Sound H progs s → s.pc = .handling batch →
    ∃ s', Grows H progs s s' ∧ s'.pc = .handling []
  | [], s, h, hpc => ⟨s, .refl h, hpc⟩
  | e :: batch, s, h, hpc => by
    obtain ⟨tr, hrun⟩ := h.reached
    obtain ⟨c, m, hsm, hs, hpcm⟩ := exists_event hrun hpc
    have h1 := h.grows hs (by rw [hpcm]; rfl) (not_lostFork fun _ hl => by cases hl) hsm fun _ _ hl => by cases hl
    obtain ⟨s', h2, hpc'⟩ := grows_events batch h1.sound hpcm
    exact ⟨s', h1.trans h2, hpc'⟩

/-- A child that runs can exit, and the other children stay as they are. -/
theorem act_exit {k : Kernel} {pid : ℤ} {ch : Child} (hc : k.children[pid]? = some ch) (hst : ch.status = none) :
    ∃ k', k.act (.exit pid 0) = some k' ∧
      ∀ pid', k'.children[pid']? = if pid' = pid then some { ch with status := some 0 } else k.children[pid']? := by
  refine ⟨({ k with children := k.children.insert pid { ch with status := some 0 } } : Kernel).enqueue sigChld, ?_,
    fun pid' => ?_⟩
  · simp only [Kernel.act, hc, hst, if_true]
  obtain ⟨p, hp⟩ := Kernel.enqueue_eq { k with children := k.children.insert pid { ch with status := some 0 } } sigChld
  rw [hp]
  show (k.children.insert pid { ch with status := some 0 })[pid']? = _
  rw [Std.ExtTreeMap.getElem?_insert]
  exact if_congr (Std.LawfulEqCmp.compare_eq_iff_eq.trans eq_comm) rfl rfl

/-- A child exits. -/
theorem leads_exit (h : Sound H progs s) (hpc : s.pc = .reaping batch) {pid : ℤ} {ch : Child}
    (hc : s.kernel.children[pid]? = some ch) (hst : ch.status = none) : ∃ s' ch', Leads H progs s s' ∧
      s'.pc = .reaping batch ∧ s'.kernel.children.size = s.kernel.children.size ∧
      s'.kernel.children[pid]? = some ch' ∧ ch'.status = some 0 := by
  obtain ⟨k, hk, hget⟩ := act_exit hc hst
  have hs : step H s (.act (.exit pid 0)) = some { s with kernel := k } := by
    simp only [step, hpc, Pc.ended, Bool.false_eq_true, if_false, hk, Option.map_some]
  have h1 := h.leads hs (by rw [hpc]; rfl) (not_lostFork fun _ hl => by cases hl) trivial
  exact ⟨_, _, h1, hpc, (Kernel.acted hk).size, (hget pid).trans (if_pos rfl), rfl⟩

/-- A child that has exited is reaped. -/
theorem leads_reap (h : Sound H progs s) (hpc : s.pc = .reaping batch) {pid rc : ℤ} {ch : Child}
    (hc : s.kernel.children[pid]? = some ch) (hst : ch.status = some rc) : ∃ s', Leads H progs s s' ∧
      s'.pc = .reaping batch ∧ s'.kernel.children.size + 1 = s.kernel.children.size := by
  obtain ⟨tr, hrun⟩ := h.reached
  have hk : s.kernel.MayReap pid rc :=
    ⟨((run_ids hrun).child pid ch hc).1, Or.inl (by rw [hc, Option.map_some, hst])⟩
  obtain ⟨s', hs⟩ : ∃ s', step H s (.reap pid rc) = some s' := by
    simp only [step, hpc, hk, if_true, Option.some.injEq, exists_eq']
  obtain ⟨-, -, he⟩ := run_effect hrun hs
  cases he with
  | reap hpc' hc' =>
    exact ⟨_, h.leads hs (by show s.pc.isThrown = false; rw [hpc]; rfl) (not_lostFork fun _ hl => by cases hl) trivial,
      hpc, size_reap hc'⟩
  | reapUnknown _ hc' =>
    rw [hc] at hc'
    cases hc'

theorem exists_child {k : Kernel} (h : k.children.size ≠ 0) : ∃ (pid : ℤ) (ch : Child), k.children[pid]? = some ch := by
  by_contra hno
  push Not at hno
  refine h (Std.ExtTreeMap.eq_empty_iff_size_eq_zero.mp (Std.ExtTreeMap.ext_getElem? fun pid => ?_))
  rw [Std.ExtTreeMap.getElem?_empty, Option.eq_none_iff_forall_ne_some]
  exact hno pid

/-- All children exit and are reaped. -/
theorem leads_reap_all : ∀ (n : ℕ) {s : Sys}, s.kernel.children.size = n → Sound H progs s →
    s.pc = .reaping batch → ∃ s', Leads H progs s s' ∧ s'.pc = .reaping batch ∧ s'.kernel.children.size = 0
  | 0, s, hn, h, hpc => ⟨s, (Grows.refl h).toLeads, hpc, hn⟩
  | n + 1, s, hn, h, hpc => by
    obtain ⟨pid, ch, hc⟩ := exists_child (k := s.kernel) (by omega)
    obtain ⟨m, chm, rc, hm, hpcm, hsize, hcm, hst⟩ : ∃ m chm rc, Leads H progs s m ∧ m.pc = .reaping batch ∧
        m.kernel.children.size = s.kernel.children.size ∧ m.kernel.children[pid]? = some chm ∧
        chm.status = some rc := by
      cases hst : ch.status with
      | none =>
        obtain ⟨m, chm, hm, hpcm, hsize, hcm, hst⟩ := leads_exit h hpc hc hst
        exact ⟨m, chm, 0, hm, hpcm, hsize, hcm, hst⟩
      | some rc => exact ⟨s, ch, rc, (Grows.refl h).toLeads, hpc, rfl, hc, hst⟩
    obtain ⟨m', hm', hpcm', hsize'⟩ := leads_reap hm.sound hpcm hcm hst
    obtain ⟨s', hs', hpc', hzero⟩ := leads_reap_all n (by omega) hm'.sound hpcm'
    exact ⟨s', (hm.trans hm').trans hs', hpc', hzero⟩

/-- The tests after the batch: scinit returns, or a further call is made. -/
theorem grows_exitTest (h : Sound H progs s) (hpc : s.pc = .handling []) :
    ∃ s', Grows H progs s s' ∧ s'.pc = afterBatch s' := by
  have hs : step H s .exitTest = some { s with pc := afterBatch s } := by
    simp only [step, hpc]
  have ht : (afterBatch s).isThrown = false := by
    rcases afterBatch_cases s with ⟨-, -, h⟩ | ⟨-, h⟩ | ⟨-, h⟩ <;> rw [h] <;> rfl
  exact ⟨_, h.grows hs ht (not_lostFork fun _ hl => by cases hl) trivial fun _ _ hl => (by cases hl), rfl⟩

/-- Where nothing is running, scinit returns or something is started. -/
theorem grows_afterBatch (hhost : ∀ var ∈ H.environ, var.head? ≠ some '=') (h : Sound H progs s)
    (hpc : s.pc = afterBatch s) : ∃ s', Grows H progs s s' ∧ (s'.pc = .returned 0 ∨
      s'.pc = .polling ∧ (s.handler.numberOfRunningProcs = 0 → left H progs s' < left H progs s)) := by
  rcases afterBatch_cases s with ⟨-, -, hab⟩ | ⟨-, hab⟩ | ⟨hq, hab⟩
  · exact ⟨s, .refl h, Or.inl (hpc.trans hab)⟩
  · obtain ⟨m, hm, hpcm⟩ := grows_call hhost h (hpc.trans hab)
    by_cases hidle : s.handler.numberOfRunningProcs = 0 ∧ left H progs m = left H progs s
    · have hnum := (hm.count hidle.2).trans hidle.1
      exact ⟨m, hm, Or.inl (hpcm.trans (if_pos hnum))⟩
    · obtain ⟨s', hs', hpc'⟩ := grows_polling hhost hm.sound hpcm
      refine ⟨s', hm.trans hs', hpc'.imp_right fun hpoll => ⟨hpoll, fun hnum => ?_⟩⟩
      have h1 := hm.left_le
      have h2 := hs'.left_le
      have h3 : left H progs m ≠ left H progs s := fun heq => hidle ⟨hnum, heq⟩
      omega
  · obtain ⟨m, hm, hpcm⟩ := grows_call hhost h (hpc.trans hab)
    refine ⟨m, hm, Or.inr ⟨hpcm, fun hnum => ?_⟩⟩
    rw [afterBatch, if_pos ⟨hnum, hq⟩] at hab
    cases hab

/-- From a batch to the next `epoll_wait`. -/
theorem grows_handling (hhost : ∀ var ∈ H.environ, var.head? ≠ some '=') (h : Sound H progs s)
    (hpc : s.pc = .handling batch) : ∃ s', Grows H progs s s' ∧ (s'.pc = .returned 0 ∨
      s'.pc = .polling ∧ (s.handler.numberOfRunningProcs = 0 → left H progs s' < left H progs s)) := by
  obtain ⟨m, hm, hpcm⟩ := grows_events batch h hpc
  obtain ⟨u, hu, hpcu⟩ := grows_exitTest hm.sound hpcm
  obtain ⟨s', hs', hpc'⟩ := grows_afterBatch hhost hu.sound hpcu
  have hmu := hm.trans hu
  refine ⟨s', hmu.trans hs', hpc'.imp_right fun hpoll => ⟨hpoll.1, fun hnum => ?_⟩⟩
  by_cases heq : left H progs u = left H progs s
  · rw [← heq]
    exact hpoll.2 ((hmu.count heq).trans hnum)
  · have h1 := hmu.left_le
    have h2 := hs'.left_le
    omega

/-- Where no child is left, the events are handled. -/
theorem grows_reaping (hhost : ∀ var ∈ H.environ, var.head? ≠ some '=') (h : Sound H progs s)
    (hpc : s.pc = .reaping batch) (hzero : s.kernel.children.size = 0) : ∃ s', Grows H progs s s' ∧
      (s'.pc = .returned 0 ∨ s'.pc = .polling ∧ (s.handler.numberOfRunningProcs = 0 → left H progs s' < left H progs s)) := by
  have hs : step H s .reaped = some { s with pc := .handling batch } := by
    simp only [step, hpc]
  have hsm : Smooth s .reaped := fun pid ch hc => by
    rw [Std.ExtTreeMap.eq_empty_iff_size_eq_zero.mpr hzero, Std.ExtTreeMap.getElem?_empty] at hc
    cases hc
  have h1 := h.grows hs rfl (not_lostFork fun _ hl => by cases hl) hsm fun _ _ hl => by cases hl
  obtain ⟨s', hs', hpc'⟩ := grows_handling hhost h1.sound rfl
  have hleft := h1.left_le
  refine ⟨s', h1.trans hs', hpc'.imp_right fun hpoll => ⟨hpoll.1, fun hnum => ?_⟩⟩
  exact lt_of_lt_of_le (hpoll.2 hnum) hleft

/-- A round in which every child exits: scinit returns, or has started a process. -/
theorem leads_round (hhost : ∀ var ∈ H.environ, var.head? ≠ some '=') (h : Sound H progs s)
    (hpc : s.pc = .polling) : ∃ s', Leads H progs s s' ∧ (s'.pc = .returned 0 ∨
      s'.pc = .polling ∧ left H progs s' < left H progs s) := by
  obtain ⟨batch, hk, hall⟩ := exists_report s.kernel s.handler.signalFd
  have hs : step H s (.epollWait batch) = some { s with pc := .reaping batch } := by
    simp only [step, hpc, hk, and_self, if_true]
  have h1 := (h.grows hs rfl (not_lostFork fun _ hl => by cases hl) hall fun _ _ hl => by cases hl).toLeads
  obtain ⟨m, hm, hpcm, hzero⟩ := leads_reap_all _ rfl h1.sound rfl
  have hnum : m.handler.numberOfRunningProcs = 0 := by
    have hsur := hm.sound.surplus
    unfold Scinit.surplus at hsur
    omega
  obtain ⟨s', hs', hpc'⟩ := grows_reaping hhost hm.sound hpcm hzero
  have h1m := h1.trans hm
  exact ⟨s', h1m.trans hs'.toLeads, hpc'.imp_right fun hpoll =>
    ⟨hpoll.1, lt_of_lt_of_le (hpoll.2 hnum) h1m.left_le⟩⟩

/-- The calls of `setup_signal_handlers` can succeed. -/
theorem exists_maySetup (k : Kernel) : ∃ f : ℤ, k.MaySetup ⟨true, some f, some (f + 1), true⟩ := by
  obtain ⟨f, h0, hf⟩ := exists_above k.fds
  have hnot : ∀ i : ℤ, 0 ≤ i → f + i ∉ k.fds := fun i hi hm => by
    have hlt := hf _ hm
    omega
  refine ⟨f, ?_, ?_⟩
  · rintro fd hfd
    cases hfd
    exact ⟨h0, by simpa using hnot 0 le_rfl⟩
  · rintro fd hfd
    cases hfd
    exact ⟨by omega, hnot 1 (by omega), fun heq => absurd (Option.some.inj heq) (by omega)⟩

/-- From wherever scinit is, it gets to `epoll_wait` or returns. -/
theorem leads_polling (hhost : ∀ var ∈ H.environ, var.head? ≠ some '=') (h : Sound H progs s)
    (hend : s.pc.ended = false) : ∃ s', Leads H progs s s' ∧ (s'.pc = .returned 0 ∨ s'.pc = .polling) := by
  have hhandling : ∀ {m : Sys}, Leads H progs s m → (∃ s', Grows H progs m s' ∧ (s'.pc = .returned 0 ∨
      s'.pc = .polling ∧ (m.handler.numberOfRunningProcs = 0 → left H progs s' < left H progs m))) →
      ∃ s', Leads H progs s s' ∧ (s'.pc = .returned 0 ∨ s'.pc = .polling) := by
    rintro m hm ⟨s', hs', hpc'⟩
    exact ⟨s', hm.trans hs'.toLeads, hpc'.imp_right And.left⟩
  have hcalling : ∀ {m : Sys} {site : Site}, Leads H progs s m → m.pc = afterStart site m →
      ∃ s', Leads H progs s s' ∧ (s'.pc = .returned 0 ∨ s'.pc = .polling) := by
    intro m site hm hpcm
    obtain ⟨s', hs', hpc'⟩ := grows_polling hhost hm.sound hpcm
    exact ⟨s', hm.trans hs'.toLeads, hpc'⟩
  cases hpc : s.pc with
  | setup =>
    obtain ⟨f, hk⟩ := exists_maySetup s.kernel
    have hs : step H s (.setup ⟨true, some f, some (f + 1), true⟩) =
        some (Sys.goto (setupSignalHandlers ⟨true, some f, some (f + 1), true⟩ s) (.notify .first)) := by
      simp only [step, hpc, hk, and_self, if_true]
    have h1 := h.leads hs rfl (not_lostFork fun _ hl => by cases hl) ⟨rfl, rfl, rfl, rfl⟩
    obtain ⟨m, hm, hpcm⟩ := grows_call hhost h1.sound rfl
    exact hcalling (h1.trans hm.toLeads) hpcm
  | notify site =>
    obtain ⟨m, hm, hpcm⟩ := grows_call hhost h hpc
    exact hcalling hm.toLeads hpcm
  | starting site todo =>
    obtain ⟨m, hm, hpcm⟩ := grows_starting hhost h hpc
    exact hcalling hm.toLeads hpcm
  | polling => exact ⟨s, (Grows.refl h).toLeads, Or.inr hpc⟩
  | reaping batch =>
    obtain ⟨m, hm, hpcm, hzero⟩ := leads_reap_all _ rfl h hpc
    exact hhandling hm (grows_reaping hhost hm.sound hpcm hzero)
  | handling batch => exact hhandling (Grows.refl h).toLeads (grows_handling hhost h hpc)
  | returned _ | thrown _ | killed _ =>
    rw [hpc] at hend
    cases hend

/-- Round after round, until it has returned. -/
theorem leads_returned (hhost : ∀ var ∈ H.environ, var.head? ≠ some '=') (h : Sound H progs s)
    (hend : s.pc.ended = false) : ∃ u, Smoothly H s u ∧ u.pc = .returned 0 := by
  have hround : ∀ s, Sound H progs s ∧ (s.pc = .returned 0 ∨ s.pc = .polling) → ∃ s', Smoothly H s s' ∧
      (Sound H progs s' ∧ (s'.pc = .returned 0 ∨ s'.pc = .polling)) ∧
      (s'.pc = .returned 0 ∨ left H progs s' < left H progs s) := by
    rintro s ⟨hs, hret | hpoll⟩
    · exact ⟨s, .refl, ⟨hs, Or.inl hret⟩, Or.inl hret⟩
    · obtain ⟨s', hs', hpc'⟩ := leads_round hhost hs hpoll
      exact ⟨s', hs'.smoothly, ⟨hs'.sound, hpc'.imp_right And.left⟩, hpc'.imp_right And.right⟩
  obtain ⟨m, hm, hpcm⟩ := leads_polling hhost h hend
  obtain ⟨u, hu, -, hpcu⟩ := ReachesBy.exists_of_measure (left H progs) hround ⟨hm.sound, hpcm⟩
  exact ⟨u, hm.smoothly.trans hu, hpcu⟩

/-! ### What stands in the way -/

/-- **scinit can return** from exactly those states of a run before which no
fork was lost: it needs that nothing goes wrong from then on and that the children
exit, and nothing else. After a lost fork no run whatever returns. -/
theorem can_return_iff (hhost : ∀ var ∈ H.environ, var.head? ≠ some '=') (h : Runs H progs tr s)
    (hend : s.pc.ended = false) :
    ((∃ tr' u, Run (step H) s tr' u ∧ u.pc = .returned 0) ↔ ∀ t l, (t, l) ∈ tr → ¬ LostFork H t l) ∧
      ((∀ t l, (t, l) ∈ tr → ¬ LostFork H t l) → ∃ u, Smoothly H s u ∧ u.pc = .returned 0) := by
  classical
  have hsmooth : (∀ t l, (t, l) ∈ tr → ¬ LostFork H t l) → ∃ u, Smoothly H s u ∧ u.pc = .returned 0 := by
    intro hno
    have hcount : (tr.countP fun e => decide (LostFork H e.1 e.2)) = 0 :=
      List.countP_eq_zero.mpr fun e he => by
        rw [decide_eq_true_eq]
        exact hno e.1 e.2 he
    have ht : s.pc.isThrown = false := by
      cases hpc : s.pc with
      | thrown _ =>
        rw [hpc] at hend
        cases hend
      | _ => rfl
    have hsurplus : surplus s = 0 := by
      rw [surplus, counter_eq h ht, hcount]
      omega
    exact leads_returned hhost ⟨⟨tr, h⟩, hsurplus⟩ hend
  refine ⟨⟨?_, fun hno => ?_⟩, hsmooth⟩
  · rintro ⟨tr', u, hrun, hpc⟩ t l hm
    exact (no_children_of_returned (h.trans hrun) hpc).2 t l (List.mem_append_left _ hm)
  · obtain ⟨u, ⟨tr', hrun, -⟩, hpc⟩ := hsmooth hno
    exact ⟨tr', u, hrun, hpc⟩

/-- A program is started in the first call, and its fork does not fail. -/
def calledOnce : List Label := [.setup setupOk, .notify, .start (startOk 10 100), .started]

theorem calledOnce_possible :
    (exec (step bareHost) (boot bareHost [plain 'p' "simple" [] []]) calledOnce).isSome = true := by decide

theorem can_return_iff_calledOnce : ∃ u, Smoothly bareHost ((exec (step bareHost)
    (boot bareHost [plain 'p' "simple" [] []]) calledOnce).get calledOnce_possible) u ∧ u.pc = .returned 0 := by
  refine (can_return_iff (by decide) (Run.of_isSome calledOnce_possible) (by decide)).2 fun t l hm => ?_
  have hall : ∀ l ∈ calledOnce, l.forkOk = true := by decide
  have hl := hall l (label_mem_of_mem_trace hm)
  rintro ⟨c, -, -, -, -, rfl, -, -, -, -, -, hf, -⟩
  simp [Label.forkOk, hf] at hl

/-! ### Rounds with nothing running -/

/-- The tests after a batch find that nothing is running. -/
def idle (s : Sys) : Label → Bool
  | .exitTest => s.handler.numberOfRunningProcs = 0
  | _ => false

/-- Since the tests found nothing running, nothing was started, or scinit has ended. -/
def Unmoved (s : Sys) : Prop :=
  s.pc.ended = true ∨
    (s.pc = .notify .tail ∨ ∃ todo, s.pc = .starting .tail todo) ∧ s.handler.numberOfRunningProcs = 0

theorem unmoved_of_idle (he : Effect H s l s') (hidle : idle s l = true) : ¬ Unmoved s ∧ Unmoved s' := by
  cases he with
  | exitTest hpc =>
    have hnum : s.handler.numberOfRunningProcs = 0 := of_decide_eq_true hidle
    refine ⟨?_, ?_⟩
    · rintro (hend | ⟨hat | ⟨todo, hat⟩, -⟩)
      · rw [hpc] at hend
        cases hend
      · rw [hpc] at hat
        cases hat
      · rw [hpc] at hat
        cases hat
    · rcases afterBatch_cases s with ⟨-, -, hab⟩ | ⟨-, hab⟩ | ⟨hq, hab⟩
      · exact Or.inl (by rw [hab]; rfl)
      · exact Or.inr ⟨Or.inl hab, hnum⟩
      · rw [afterBatch, if_pos ⟨hnum, hq⟩] at hab
        cases hab
  | _ => cases hidle

/-- What ends this is a fork. -/
theorem unmoved_step (he : Effect H s l s') (hend : s.pc.ended = false) (hu : Unmoved s) :
    Unmoved s' ∨ ∃ r, forkOf H s l = some r := by
  obtain ⟨hat, hnum⟩ := hu.resolve_left (by rw [hend]; decide)
  have hsite : ∀ {site : Site} {todo : List Ref}, s.pc = .starting site todo → site = .tail := fun {site todo} hpc => by
    rcases hat with h | ⟨todo', h⟩ <;> rw [hpc] at h <;> cases h
    rfl
  cases he with
  | notify hpc =>
    rcases hat with hat | ⟨todo, hat⟩
    · rw [hpc] at hat
      cases hat
      exact Or.inl (Or.inr ⟨Or.inr ⟨_, rfl⟩, hnum⟩)
    · rw [hpc] at hat
      cases hat
  | skipped hpc =>
    obtain rfl := hsite hpc
    exact Or.inl (Or.inr ⟨Or.inr ⟨_, rfl⟩, hnum⟩)
  | threw hpc hp hr hn hk hpc' =>
    obtain rfl := hsite hpc
    rcases hpc' with rfl | ⟨e, rfl⟩
    · exact Or.inl (Or.inr ⟨Or.inr ⟨_, rfl⟩, hnum⟩)
    · exact Or.inl (Or.inl rfl)
  | unregistered => exact Or.inl (Or.inl rfl)
  | forked hpc hp hr hn _ _ _ hexn => exact Or.inr ⟨_, forkOf_of_exn hpc hp hr hn hexn⟩
  | started hpc =>
    obtain rfl := hsite hpc
    exact Or.inl (Or.inl (by rw [show afterStart .tail s = .returned 0 from if_pos hnum]; rfl))
  | act => exact Or.inl (Or.inr ⟨hat, hnum⟩)
  | @signal n =>
    left
    unfold deliver
    split
    · exact Or.inr ⟨hat, hnum⟩
    · split
      · exact Or.inr ⟨hat, hnum⟩
      · exact Or.inl rfl
  | setup hpc | setupFailed hpc | epollWait hpc | reap hpc | reapUnknown hpc | reaped hpc | signalled hpc
  | output hpc | hungUp hpc | eventFailed hpc | exitTest hpc =>
    rcases hat with hat | ⟨todo, hat⟩ <;> rw [hpc] at hat <;> cases hat

/-- Every fork is of a process that was never started. -/
theorem forks_le (h : Runs H progs tr s) :
    (tr.countP fun e => (forkOf H e.1 e.2).isSome) + left H progs s ≤ progs.length := by
  induction h with
  | refl =>
    rw [List.countP_nil, zero_add, ← boot_length H progs]
    exact (Set.ncard_le_card _).trans_eq (Nat.card_fin _)
  | @snoc tr s s' l h hs ih =>
    rw [List.countP_append, List.countP_singleton]
    split
    · rename_i hf
      obtain ⟨r, hf⟩ := Option.isSome_iff_exists.mp hf
      have hlt := left_lt_of_fork h hs hf
      omega
    · have hle := left_le_of_step h hs
      omega

open Classical in
/-- **There are few rounds with nothing running**: each of them ends scinit or
is followed by the start of a process, and no process is started twice. -/
theorem idle_rounds (h : Runs H progs tr s) :
    (tr.countP fun e => idle e.1 e.2) ≤ (tr.countP fun e => (forkOf H e.1 e.2).isSome) + 1 ∧
      (tr.countP fun e => (forkOf H e.1 e.2).isSome) ≤ progs.length := by
  suffices (tr.countP fun e => idle e.1 e.2) ≤
      (tr.countP fun e => (forkOf H e.1 e.2).isSome) + if Unmoved s then 1 else 0 by
    have hle := forks_le h
    refine ⟨this.trans (Nat.add_le_add_left ?_ _), by omega⟩
    split <;> omega
  induction h with
  | refl => exact Nat.zero_le _
  | @snoc tr s s' l h hs ih =>
    obtain ⟨-, -, he⟩ := run_effect h hs
    rw [List.countP_append, List.countP_append, List.countP_singleton, List.countP_singleton]
    by_cases hidle : idle s l = true
    · obtain ⟨hno, hu⟩ := unmoved_of_idle he hidle
      rw [if_neg hno] at ih
      rw [if_pos hidle, if_pos hu]
      omega
    · rw [if_neg hidle]
      by_cases hu : Unmoved s
      · rw [if_pos hu] at ih
        rcases unmoved_step he (not_ended_of_step hs) hu with hu' | ⟨r, hf⟩
        · rw [if_pos hu']
          omega
        · rw [hf, Option.isSome_some, if_pos rfl]
          omega
      · rw [if_neg hu] at ih
        omega

theorem idle_rounds_oneShot : ((trace (step bareHost) (boot bareHost [plain 'p' "simple" [] []])
    (oneShot 0)).countP fun e => idle e.1 e.2) ≤ 2 := by
  have h : Runs bareHost [plain 'p' "simple" [] []] _ _ := Run.of_isSome oneShot_possible
  obtain ⟨hle, hforks⟩ := idle_rounds h
  exact hle.trans (Nat.add_le_add_right hforks 1)

end Scinit
