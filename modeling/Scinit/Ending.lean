/-
# How scinit ends

A step ends scinit in one of three ways, and each of them is known from the state
and the answers of the kernel: the event loop returns 0, a signal that is not in
the mask has its default action, or a call fails whose failure nothing catches
(`ended_iff`). Nothing else can: no lookup in a table misses, no object is
gone when it is asked for, and no exception of a library gets out.

Key definitions: `failure`.
Key theorems: `thrown_iff`, `killed_iff`, `returned_iff`, `ended_iff`.
-/
import Scinit.Progress

namespace Scinit

open Transition

variable {H : Host} {progs : List Program} {tr : List (Sys × Label)} {s s' : Sys} {l : Label}
  {c : StartCalls} {r : Ref} {p : ChildProcess} {e : Exn}

/-! ### The calls whose failure ends scinit -/

/-- The exception that a step lets out: that of `setup_signal_handlers` and of an
event where their calls fail, and that of a start attempt unless it is caught. -/
def failure (H : Host) (s : Sys) : Label → Option Exn
  | .setup c =>
    if c.sigprocmask ∧ c.signalfd.isSome ∧ c.epollCreate.isSome ∧ c.epollCtl then none else some .processHandler
  | .start c =>
    (s.pc.turn.bind (startable s)).bind fun p => (attemptExn H c p).filter fun e => !e.isStdException
  | .event c =>
    s.pc.batch.head?.bind fun e =>
      if e.fd = s.handler.signalFd then if c.signal.isNone then some .processHandler else none
      else if e.epollin = false ∧ c.epollDel = false then some .processHandler
      else none
  | _ => none

theorem failure_event {c : EventCalls} {e : Event} {batch : List Event} (hpc : s.pc = .handling (e :: batch)) :
    failure H s (.event c) =
      if e.fd = s.handler.signalFd then if c.signal.isNone then some .processHandler else none
      else if e.epollin = false ∧ c.epollDel = false then some .processHandler
      else none := by
  simp only [failure, hpc, Pc.batch, List.head?_cons, Option.bind_some]

theorem goto_thrown {q : Sys × Option Exn} {pc : Pc} (hpc : pc.isThrown = false) :
    (Sys.goto q pc).pc = .thrown e ↔ q.2 = some e := by
  obtain ⟨s, _ | e'⟩ := q
  · refine ⟨fun h => ?_, fun h => (by cases h)⟩
    have h : pc = .thrown e := h
    rw [h] at hpc
    cases hpc
  · show Pc.thrown e' = .thrown e ↔ some e' = some e
    rw [Pc.thrown.injEq, Option.some.injEq]

theorem setup_failure (c : SetupCalls) : (setupSignalHandlers c s).2 = failure H s (.setup c) := by
  obtain ⟨sigprocmask, signalfd, epollCreate, epollCtl⟩ := c
  cases sigprocmask
  · rfl
  · cases signalfd
    · rfl
    · cases epollCreate
      · rfl
      · cases epollCtl <;> rfl

theorem start_failure {site : Site} {todo : List Ref} (hpc : s.pc = .starting site (r :: todo)) :
    (startTurn H c r s).2 = failure H s (.start c) := by
  simp only [failure, hpc, Pc.turn, Option.bind_some]
  cases hs : startable s r with
  | none => rw [startTurn_idle hs, Option.bind_none]
  | some p => rw [(startTurn_startable hs).2.2.2, Option.bind_some]

/-- An event throws a `ProcessHandlerException` where its calls fail, and nothing else. -/
theorem event_failure (h : Runs H progs tr s) {c : EventCalls} (hs : step H s (.event c) = some s') :
    s'.pc = .thrown e ↔ failure H s (.event c) = some e := by
  obtain ⟨-, -, he⟩ := run_effect h hs
  constructor
  · intro hpc'
    obtain ⟨ev, batch, hpc, hfail⟩ := abrupt_event h hs (by rw [hpc']; rfl)
    have he' : e = .processHandler := by
      cases he with
      | signalled | output | hungUp => cases hpc'
      | eventFailed =>
        cases hpc'
        rfl
    rw [failure_event hpc, he']
    split at hfail
    · rename_i hsig
      rw [if_pos hsig, hfail]
      rfl
    · rename_i hsig
      rw [if_neg hsig, if_pos ⟨by simpa using hfail.1, hfail.2⟩]
  · intro hf
    cases he with
    | signalled hpc hsig hn =>
      rw [failure_event hpc, if_pos hsig, hn] at hf
      cases hf
    | output hpc hsig hin =>
      rw [failure_event hpc, if_neg hsig, hin] at hf
      cases hf
    | hungUp hpc hsig hin _ _ hdel =>
      rw [failure_event hpc, if_neg hsig, if_neg fun h => by rw [hdel] at h; cases h.2] at hf
      cases hf
    | eventFailed hpc =>
      rw [failure_event hpc] at hf
      have he' : e = .processHandler := by
        split at hf
        · split at hf
          · exact (Option.some.inj hf).symm
          · cases hf
        · split at hf
          · exact (Option.some.inj hf).symm
          · cases hf
      rw [he']

/-- **Where an exception gets out**: exactly where the step has a failure that nothing catches. -/
theorem thrown_iff (h : Runs H progs tr s) (hs : step H s l = some s') :
    s'.pc = .thrown e ↔ failure H s l = some e := by
  have hns : s.pc.isThrown = false := not_thrown_of_step hs
  have hquiet : failure H s l = none → s'.pc.isThrown = false → (s'.pc = .thrown e ↔ failure H s l = some e) := by
    intro hf ht
    refine ⟨fun hpc => ?_, fun h => ?_⟩
    · rw [hpc] at ht
      cases ht
    · rw [hf] at h
      cases h
  cases l with
  | setup c =>
    simp only [step, Option.ite_none_right_eq_some, Option.some.injEq] at hs
    obtain ⟨-, rfl⟩ := hs
    rw [goto_thrown rfl, setup_failure]
  | start c =>
    simp only [step] at hs
    split at hs
    swap
    · cases hs
    rename_i site r todo hpc
    simp only [Option.ite_none_right_eq_some, Option.some.injEq] at hs
    obtain ⟨-, rfl⟩ := hs
    rw [goto_thrown rfl, start_failure hpc]
  | event c => exact event_failure h hs
  | notify | epollWait | reap | reaped | act =>
    obtain ⟨-, -, he⟩ := run_effect h hs
    cases he <;> first | exact hquiet rfl rfl | exact hquiet rfl hns
  | started =>
    obtain ⟨-, -, he⟩ := run_effect h hs
    cases he with
    | @started site =>
      refine hquiet rfl ?_
      rcases afterStart_cases site s with ⟨-, h⟩ | ⟨-, -, h⟩ | ⟨-, h⟩ <;> exact h ▸ rfl
  | exitTest =>
    obtain ⟨-, -, he⟩ := run_effect h hs
    cases he with
    | exitTest =>
      refine hquiet rfl ?_
      rcases afterBatch_cases s with ⟨-, -, h⟩ | ⟨-, h⟩ | ⟨-, h⟩ <;> exact h ▸ rfl
  | signal n =>
    obtain ⟨-, -, he⟩ := run_effect h hs
    cases he with
    | signal =>
      refine hquiet rfl ?_
      rcases deliver_cases H n s with ⟨p, hd⟩ | ⟨-, -, hd⟩
      · rw [hd]
        exact hns
      · rw [hd]
        rfl

/-- What `handle_env` throws is its own exception or one of the template engine. -/
theorem kind_of_handleEnv (henv : handleEnv H p = .error e) :
    (∃ what, e = .childProcess what) ∨ e.isStdException = true := by
  unfold handleEnv envVars at henv
  cases hscan : scanEnviron p.allowedEnvVars H.environ with
  | error e' =>
    rw [hscan] at henv
    cases henv
    obtain ⟨var, -, vars, hvar⟩ := foldlM_error hscan
    unfold scanVar at hvar
    split at hvar
    · cases hvar
      exact Or.inl ⟨_, rfl⟩
    · cases hvar
  | ok vars =>
    rw [hscan] at henv
    dsimp only at henv
    split at henv
    · rename_i e' hextra
      cases henv
      obtain ⟨pair, -, vars', hpair⟩ := foldlM_error hextra
      unfold addExtraVar at hpair
      split at hpair
      · cases hpair
      · cases hpair
        exact Or.inr rfl
    · cases henv

theorem kind_of_attempt (hexn : attemptExn H c p = some e) :
    (∃ what, e = .childProcess what) ∨ e.isStdException = true := by
  rw [attemptExn, Option.or_eq_some_iff] at hexn
  rcases hexn with hexn | ⟨-, hexn⟩
  · unfold forkExn at hexn
    cases hopen : openExn c p with
    | some e' =>
      rw [hopen] at hexn
      cases hexn
      unfold openExn at hopen
      left
      split at hopen
      · exact ⟨_, (Option.some.inj hopen).symm⟩
      · exact ⟨_, (Option.some.inj hopen).symm⟩
      · split at hopen
        · exact ⟨_, (Option.some.inj hopen).symm⟩
        · cases hopen
    | none =>
      rw [hopen] at hexn
      dsimp only at hexn
      split at hexn
      · rename_i e' henv
        cases hexn
        exact kind_of_handleEnv henv
      · cases hexn
  · unfold registerExn at hexn
    left
    split at hexn
    · exact ⟨_, (Option.some.inj hexn).symm⟩
    · split at hexn
      · exact ⟨_, (Option.some.inj hexn).symm⟩
      · cases hexn

/-- It is never a crash, and never an exception of a library or of the configuration. -/
theorem kind_of_failure (hf : failure H s l = some e) : e = .processHandler ∨ ∃ what, e = .childProcess what := by
  cases l with
  | setup c =>
    simp only [failure, Option.ite_none_left_eq_some, Option.some.injEq] at hf
    exact Or.inl hf.2.symm
  | start c =>
    simp only [failure, Option.bind_eq_some_iff, Option.filter_eq_some_iff] at hf
    obtain ⟨p, -, hexn, hstd⟩ := hf
    refine Or.inr ((kind_of_attempt hexn).resolve_right fun h => ?_)
    rw [h] at hstd
    cases hstd
  | event c =>
    simp only [failure, Option.bind_eq_some_iff] at hf
    obtain ⟨ev, -, hf⟩ := hf
    left
    split at hf
    · split at hf
      · exact (Option.some.inj hf).symm
      · cases hf
    · split at hf
      · exact (Option.some.inj hf).symm
      · cases hf
  | _ => cases hf

/-! ### The three ends -/

theorem killed_iff (h : Runs H progs tr s) (hs : step H s l = some s') (n : ℕ) :
    s'.pc = .killed n ↔ l = .signal n ∧ n ∉ [sigChld, sigInt, sigQuit] ∧ n ∉ harmlessSignals ∧ H.isPid1 = false := by
  obtain ⟨-, -, he⟩ := run_effect h hs
  have hgoing := not_ended_of_step hs
  constructor
  · intro hpc'
    cases he with
    | setup | setupFailed | notify | skipped | unregistered | forked | epollWait | reaped | signalled | output
    | hungUp | eventFailed => cases hpc'
    | threw _ _ _ _ _ hat => rcases hat with rfl | ⟨e, rfl⟩ <;> cases hpc'
    | @started site =>
      have hpc' : afterStart site s = .killed n := hpc'
      rcases afterStart_cases site s with ⟨-, hat⟩ | ⟨-, -, hat⟩ | ⟨-, hat⟩ <;> rw [hat] at hpc' <;> cases hpc'
    | exitTest =>
      have hpc' : afterBatch s = .killed n := hpc'
      rcases afterBatch_cases s with ⟨-, -, hat⟩ | ⟨-, hat⟩ | ⟨-, hat⟩ <;> rw [hat] at hpc' <;> cases hpc'
    | reap | reapUnknown | act =>
      have hpc' : s.pc = .killed n := hpc'
      rw [hpc'] at hgoing
      cases hgoing
    | @signal m _ hset =>
      rcases deliver_cases H m s with ⟨p, hd⟩ | ⟨hmask, hpid, hd⟩
      · rw [hd] at hpc'
        have hpc' : s.pc = .killed n := hpc'
        rw [hpc'] at hgoing
        cases hgoing
      · rw [hd] at hpc'
        cases hpc'
        rw [run_mask h hset (not_thrown_of_step hs)] at hmask
        exact ⟨rfl, hmask, hpid.2, hpid.1⟩
  · rintro ⟨rfl, hmask, hharm, hpid⟩
    cases he with
    | signal _ hset =>
      rw [← run_mask h hset (not_thrown_of_step hs)] at hmask
      rw [deliver, if_neg hmask, if_neg]
      rw [hpid]
      exact not_or.mpr ⟨Bool.false_ne_true, hharm⟩

theorem returned_iff (h : Runs H progs tr s) (hs : step H s l = some s') (rc : ℤ) :
    s'.pc = .returned rc ↔ rc = 0 ∧ s.handler.numberOfRunningProcs = 0 ∧
      (l = .started ∧ s.pc = .starting .tail [] ∨ l = .exitTest ∧ s.handler.shouldQuit = true) := by
  constructor
  · intro hpc'
    obtain ⟨rfl, hnum, tr', u, -, hlast⟩ := returned_cases (h.snoc hs) hpc'
    rcases hlast with ⟨htr, hu, rfl⟩ | ⟨htr, -, hq, rfl⟩
    · obtain ⟨rfl, he⟩ := List.append_inj' htr rfl
      cases he
      exact ⟨rfl, hnum, Or.inl ⟨rfl, hu⟩⟩
    · obtain ⟨rfl, he⟩ := List.append_inj' htr rfl
      cases he
      exact ⟨rfl, hnum, Or.inr ⟨rfl, hq⟩⟩
  · obtain ⟨-, -, he⟩ := run_effect h hs
    rintro ⟨rfl, hnum, ⟨rfl, hpc⟩ | ⟨rfl, hq⟩⟩
    · cases he with
      | started hpc' =>
        rw [hpc] at hpc'
        cases hpc'
        exact if_pos hnum
    · cases he with
      | exitTest => exact if_pos ⟨hnum, hq⟩

/-- **How scinit ends**: a step of a run makes it return, kills it or lets an exception
out exactly in these cases, and the exception is its own. -/
theorem ended_iff (h : Runs H progs tr s) (hs : step H s l = some s') :
    (∀ rc, s'.pc = .returned rc ↔ rc = 0 ∧ s.handler.numberOfRunningProcs = 0 ∧
      (l = .started ∧ s.pc = .starting .tail [] ∨ l = .exitTest ∧ s.handler.shouldQuit = true)) ∧
    (∀ n, s'.pc = .killed n ↔
      l = .signal n ∧ n ∉ [sigChld, sigInt, sigQuit] ∧ n ∉ harmlessSignals ∧ H.isPid1 = false) ∧
    (∀ e, s'.pc = .thrown e ↔ failure H s l = some e) ∧
    ∀ e, s'.pc = .thrown e → e = .processHandler ∨ ∃ what, e = .childProcess what :=
  ⟨returned_iff h hs, killed_iff h hs, fun _ => thrown_iff h hs,
    fun _ hpc => kind_of_failure ((thrown_iff h hs).mp hpc)⟩

theorem sigTerm_possible : (step bareHost ((exec (step bareHost) (boot bareHost [plain 'p' "simple" [] []])
    calledOnce).get calledOnce_possible) (.signal sigTerm)).isSome = true := by decide

theorem ended_iff_sigTerm : ((step bareHost ((exec (step bareHost) (boot bareHost [plain 'p' "simple" [] []])
    calledOnce).get calledOnce_possible) (.signal sigTerm)).get sigTerm_possible).pc = .killed sigTerm := by
  obtain ⟨-, hkilled, -⟩ := ended_iff (Run.of_isSome calledOnce_possible) (Option.some_get sigTerm_possible).symm
  exact (hkilled sigTerm).mpr ⟨rfl, by decide, by decide, rfl⟩

end Scinit
