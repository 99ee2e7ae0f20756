/-
# The shutdown

A signal that asks for the end is to reach every child before scinit ends, and
no child is to be forked after it was handled. Two places of the event loop work
against that. SIGTERM is not in the mask of `setup_signal_handlers`, so it is
never handled, and ends scinit unless that is PID 1. And `start_programs` at the
head of the loop does not ask for `should_quit`: it starts what the exit of
another child released. A run keeps the protocol where scinit is ended abruptly
only after a signal was handled, or when no child lives, and where nothing can be
started by a call made with `should_quit` set. A run that does not meet this has
broken the protocol, or can go on so (`shutsDown_of_orderly`).

Key definitions: `callsDoFork`, `ShutsDown`, `Abrupt`, `Alone`, `Orderly`, `Quitting`.
Key theorems: `told_signalReceived`, `run_mask`, `handles_of_quit`, `quitting_run`,
`abrupt_of_ended`, `alone_of_told`, `shutsDown_of_orderly`, `shutdown_broken`.
-/
import Scinit.Order
import Scinit.Signals

namespace Scinit

open Transition

variable {H : Host} {progs : List Program} {base : Objs} {tr pre post : List (Sys × Label)} {s s' t : Sys}
  {l : Label} {n : ℕ}

/-! ### What a shutdown is meant to be -/

/-- The step is a turn of `start_programs` that calls `do_fork`. -/
def callsDoFork (s : Sys) : Label → Bool
  | .start _ => (s.pc.turn.bind (startable s)).isSome
  | _ => false

/-- In the step `signal_received` handles a signal that asks for the end. -/
def Handles (s : Sys) (l : Label) : Prop :=
  ∃ c e batch n, l = .event c ∧ s.pc = .handling (e :: batch) ∧ e.fd = s.handler.signalFd ∧
    c.signal = some n ∧ n ∈ terminationSignals

/-- A signal that asks for the end was sent to scinit. -/
def Sent (tr : List (Sys × Label)) : Prop := ∃ e ∈ tr, ∃ n ∈ terminationSignals, e.2 = .signal n

/-- Every child that lives was sent a signal that asks for its end. -/
def Told (s : Sys) : Prop :=
  ∀ (pid : ℤ) (c : Child), s.kernel.children[pid]? = some c → c.status = none → c.signalled = true

/-- **The shutdown protocol**: after a signal was sent, scinit does not end
before every child that lives was told; and after one was handled, `do_fork` is
not called and the children of the pid table were told. -/
structure ShutsDown (tr : List (Sys × Label)) (s : Sys) : Prop where
  ended : Sent tr → s.pc.ended = true → Told s
  handled : ∀ pre e post, tr = pre ++ e :: post → Handles e.1 e.2 →
    (∀ e' ∈ post, callsDoFork e'.1 e'.2 = false) ∧
      ∀ (pid : ℤ) (id : ℕ) (c : Child), s.handler.idForPid[pid]? = some id →
        s.kernel.children[pid]? = some c → c.signalled = true

/-! ### What goes against it -/

/-- The step ends scinit: by the default action of a signal that is not blocked,
or by an exception that nothing catches. -/
def Abrupt (H : Host) (s : Sys) : Label → Prop
  | .signal n => n ∉ s.kernel.mask ∧ n ∉ harmlessSignals ∧ H.isPid1 = false
  | .start c => ∃ r p, s.pc.turn = some r ∧ startable s r = some p ∧ Aborts H c p
  | .event c => ∃ e batch, s.pc = .handling (e :: batch) ∧
      if e.fd = s.handler.signalFd then c.signal = none else e.epollin = false ∧ c.epollDel = false
  | _ => False

/-- No child is alive, and the step gets none: if it is an attempt that gets to its
`fork`, that fails. -/
def Alone (H : Host) (s : Sys) (l : Label) : Prop :=
  (∀ (pid : ℤ) (c : Child), s.kernel.children[pid]? = some c → c.status ≠ none) ∧
    ∀ c r p, l = .start c → s.pc.turn = some r → startable s r = some p → ReachesFork H c p → c.fork = none

/-- Once a signal was sent, a step ends scinit only after one was handled, or where no
child is alive; and no process can be started where `start_programs` is called with
`should_quit` set. -/
structure Orderly (H : Host) (tr : List (Sys × Label)) : Prop where
  prepared : ∀ pre t l post, tr = pre ++ (t, l) :: post → Sent (pre ++ [(t, l)]) → Abrupt H t l →
    t.handler.shouldQuit = true ∨ Alone H t l
  quiet : ∀ e ∈ tr, e.2 = .notify → e.1.handler.shouldQuit = true → ∀ r p, ¬ MayBegin e.1 r p

/-! ### What the children are sent -/

theorem Child.Becomes.signalled {c c' : Child} (h : c.Becomes c') (hs : c.signalled = true) :
    c'.signalled = true := by
  unfold Child.signalled at hs ⊢
  rw [List.any_eq_true] at hs ⊢
  obtain ⟨m, hm, hmem⟩ := hs
  exact ⟨m, h.signals hm, hmem⟩

theorem killed_foldl (calls : List (ℤ × ℕ)) (k : Kernel) :
    k.Killed (calls.foldl (fun k call => k.kill call.1 call.2) k) := by
  induction calls generalizing k with
  | nil => exact .refl k
  | cons call calls ih => exact (Kernel.killed_kill k call.1 call.2).trans (ih _)

/-- The child that `kill` names was sent the signal. -/
theorem signalled_foldl {calls : List (ℤ × ℕ)} {k : Kernel} {pid : ℤ} {m : ℕ} {c : Child}
    (hcall : (pid, m) ∈ calls) (hm : m ∈ terminationSignals)
    (hc : (calls.foldl (fun k call => k.kill call.1 call.2) k).children[pid]? = some c) :
    c.signalled = true := by
  obtain ⟨before, after, rfl⟩ := List.append_of_mem hcall
  rw [List.foldl_append, List.foldl_cons] at hc
  generalize before.foldl (fun k call => k.kill call.1 call.2) k = k₁ at hc
  obtain ⟨f, hf⟩ := (killed_foldl after (k₁.kill pid m)).child pid
  rw [hf, Option.map_eq_some_iff] at hc
  obtain ⟨c₁, hc₁, rfl⟩ := hc
  have hsent : m ∈ c₁.signals := by
    unfold Kernel.kill at hc₁
    by_cases hpid : pid = -1
    · simp only [hpid, if_true, Std.ExtTreeMap.getElem?_map, Option.map_eq_some_iff] at hc₁
      obtain ⟨c₀, -, rfl⟩ := hc₁
      simp
    · simp only [hpid, if_false, Std.ExtTreeMap.getElem?_modify_self, Option.map_eq_some_iff] at hc₁
      obtain ⟨c₀, -, rfl⟩ := hc₁
      simp
  unfold Child.signalled
  rw [List.any_eq_true]
  exact ⟨m, List.mem_append_left _ hsent, decide_eq_true hm⟩

/-- **A handled signal reaches every child.** -/
theorem told_signalReceived (hlisted : ∀ (pid : ℤ) (c : Child), s.kernel.children[pid]? = some c →
    pid ∈ s.handler.idForPid) (hn : n ∈ terminationSignals) {pid : ℤ} {c : Child}
    (hc : (signalReceived n s).kernel.children[pid]? = some c) : c.signalled = true := by
  have hforwarded : forwarded n ∈ terminationSignals ∧ n ≠ sigChld := by
    simp only [terminationSignals, List.mem_cons, List.not_mem_nil, or_false] at hn
    rcases hn with rfl | rfl | rfl <;> decide
  rw [signalReceived_kills] at hc
  have hcall : (pid, forwarded n) ∈ kills n s.handler := by
    obtain ⟨f, hf⟩ := (killed_foldl (kills n s.handler) s.kernel).child pid
    have hc' := hc
    rw [hf, Option.map_eq_some_iff] at hc'
    obtain ⟨c₀, hc₀, -⟩ := hc'
    rw [kills_eq hforwarded.2, List.mem_map]
    exact ⟨pid, Std.ExtTreeMap.mem_keys.mpr (hlisted pid c₀ hc₀), rfl⟩
  exact signalled_foldl hcall hforwarded.1 hc

/-! ### The signals that are blocked -/

/-- From `setup_signal_handlers` on the mask stays. -/
theorem mask_of_effect (he : Effect H s l s') (hpc : s.pc ≠ .setup) : s'.kernel.mask = s.kernel.mask := by
  cases he with
  | setup hset | setupFailed hset => exact absurd hset hpc
  | notify | skipped | started | epollWait | reap | reapUnknown | reaped | output | hungUp | eventFailed
  | exitTest => rfl
  | threw _ _ _ _ hk => exact hk.mask
  | @unregistered c | @forked c =>
    show (s.kernel.forked _ _ _ _).mask = _
    unfold Kernel.forked
    cases c.fork <;> rfl
  | @signalled c e batch n =>
    obtain ⟨k, q, hk, heq⟩ := signalReceived_eq n
      { s with kernel := { s.kernel with pending := s.kernel.pending.erase n } }
    obtain ⟨children, rfl⟩ := hk.same
    rw [heq]
  | act _ ha => exact (Kernel.acted ha).mask
  | @signal n =>
    rcases deliver_cases H n s with ⟨p, hd⟩ | ⟨-, -, hd⟩ <;> rw [hd]

theorem run_mask (h : Runs H progs tr s) (hpc : s.pc ≠ .setup) (ht : s.pc.isThrown = false) :
    s.kernel.mask = [sigChld, sigInt, sigQuit] := by
  induction h with
  | refl => exact absurd (boot_pc H progs) hpc
  | @snoc tr s s' l h hs ih =>
    obtain ⟨-, -, he⟩ := run_effect h hs
    by_cases hset : s.pc = .setup
    · cases he with
      | setup => rfl
      | setupFailed => cases ht
      | act => exact absurd hset hpc
      | signal _ hno => exact absurd hset hno
      | reapUnknown => exact absurd hset hpc
      | notify hpc' | skipped hpc' | threw hpc' | unregistered hpc' | forked hpc' | started hpc' | epollWait hpc'
      | reap hpc' | reaped hpc' | signalled hpc' | output hpc' | hungUp hpc' | eventFailed hpc' | exitTest hpc' =>
        rw [hset] at hpc'
        cases hpc'
    · rw [mask_of_effect he hset, ih hset (not_thrown_of_step hs)]

theorem Kernel.forked_pending (k : Kernel) (c : StartCalls) (out err : ℤ × ℤ) (child : Child) :
    (k.forked c out err child).pending = k.pending := by
  unfold Kernel.forked
  cases c.fork <;> rfl

/-- A signal is pending only if it was sent and is blocked, or a child exited. -/
theorem pending_of_effect (he : Effect H s l s') (hn : n ∈ s'.kernel.pending) :
    n ∈ s.kernel.pending ∨ n = sigChld ∨ (l = .signal n ∧ s.pc ≠ .setup ∧ n ∈ s.kernel.mask) := by
  have henqueue : ∀ {k : Kernel} {m : ℕ}, n ∈ (k.enqueue m).pending → n ∈ k.pending ∨ (n = m ∧ m ∈ k.mask) := by
    intro k m hm
    unfold Kernel.enqueue at hm
    split at hm
    · rename_i hmask
      exact (List.mem_append.mp hm).imp_right fun h => ⟨List.mem_singleton.mp h, hmask⟩
    · exact Or.inl hm
  cases he with
  | setup | setupFailed | notify | skipped | started | epollWait | reap | reapUnknown | reaped | output | hungUp
  | eventFailed | exitTest => exact Or.inl hn
  | threw _ _ _ _ hk => exact Or.inl (hk.pending ▸ hn)
  | @unregistered c | @forked c =>
    have hn : n ∈ (s.kernel.forked c ..).pending := hn
    rw [Kernel.forked_pending] at hn
    exact Or.inl hn
  | @signalled c e batch m =>
    obtain ⟨k, q, hk, heq⟩ := signalReceived_eq m
      { s with kernel := { s.kernel with pending := s.kernel.pending.erase m } }
    obtain ⟨children, rfl⟩ := hk.same
    rw [heq] at hn
    exact Or.inl (List.mem_of_mem_erase hn)
  | @act a k _ ha =>
    have hn : n ∈ k.pending := hn
    cases a with
    | write pid stream bytes =>
      simp only [Kernel.act] at ha
      split at ha
      · cases ha
      · split at ha
        · cases ha
        · simp only [Option.ite_none_right_eq_some, Option.some.injEq] at ha
          obtain ⟨-, rfl⟩ := ha
          exact Or.inl hn
    | exit pid status =>
      simp only [Kernel.act] at ha
      split at ha
      · cases ha
      · simp only [Option.ite_none_right_eq_some, Option.some.injEq] at ha
        obtain ⟨-, rfl⟩ := ha
        exact (henqueue hn).imp_right fun h => Or.inl h.1
    | hangup fd =>
      simp only [Kernel.act] at ha
      split at ha
      · cases ha
      · cases ha
        exact Or.inl hn
  | @signal m _ hset =>
    unfold deliver at hn
    split at hn
    · rcases henqueue (k := s.kernel) hn with hn | ⟨rfl, hmask⟩
      · exact Or.inl hn
      · exact Or.inr (Or.inr ⟨rfl, hset, hmask⟩)
    · split at hn <;> exact Or.inl hn

theorem run_pending (h : Runs H progs tr s) : ∀ n ∈ s.kernel.pending, n ∈ [sigChld, sigInt, sigQuit] := by
  induction h with
  | refl =>
    rw [boot_kernel]
    exact List.forall_mem_nil _
  | snoc h hs ih =>
    intro n hn
    rcases pending_of_effect (run_effect h hs).2.2 hn with hn | rfl | ⟨-, hset, hn⟩
    · exact ih n hn
    · exact List.mem_cons_self
    · rwa [run_mask h hset (not_thrown_of_step hs)] at hn

/-- `should_quit` is set where a signal that asks for the end is handled. -/
theorem handles_of_quit (h : Runs H progs tr s) (hs : step H s l = some s')
    (hq : s'.handler.shouldQuit = true) : s.handler.shouldQuit = true ∨ Handles s l := by
  obtain ⟨-, -, he⟩ := run_effect h hs
  cases he with
  | @signalled c e batch n hpc hfd hn hpending =>
    rw [signalReceived_kills] at hq
    refine (Bool.or_eq_true _ _ ▸ hq).imp_right fun hasks => ⟨c, e, batch, n, rfl, hpc, hfd, hn, ?_⟩
    -- what is blocked besides these is SIGCHLD
    have hmask := run_pending h n hpending
    simp only [List.mem_cons, List.not_mem_nil, or_false] at hmask
    rcases hmask with rfl | rfl | rfl
    · exact absurd (asksToQuit_iff.mp hasks).1 (by decide)
    · decide
    · decide
  | signal =>
    rw [deliver_handler] at hq
    exact Or.inl hq
  | _ => exact Or.inl hq

theorem handled_of_quit (h : Runs H progs tr s) (hq : s.handler.shouldQuit = true) :
    ∃ e ∈ tr, Handles e.1 e.2 := by
  induction h with
  | refl =>
    obtain ⟨-, -, -, -, -, -, hquit⟩ := boot_tables H progs
    rw [hquit] at hq
    cases hq
  | @snoc tr s s' l h hs ih =>
    rcases handles_of_quit h hs hq with hq | hh
    · obtain ⟨e, he, hh⟩ := ih hq
      exact ⟨e, List.mem_append_left _ he, hh⟩
    · exact ⟨(s, l), List.mem_append_right _ (List.mem_singleton_self _), hh⟩

/-! ### After a signal was handled -/

/-- scinit was asked to end, nothing can be started, and every child was told. -/
structure Quitting (s : Sys) : Prop where
  quit : s.handler.shouldQuit = true
  idle : ∀ r, startable s r = none
  told : ∀ (pid : ℤ) (c : Child), s.kernel.children[pid]? = some c → c.signalled = true

theorem startable_eq_none {r : Ref} : startable s r = none ↔
    ∀ p, s.objs[r]? = some p → p.state = .ready → p.name ∈ s.loggers := by
  rw [Option.eq_none_iff_forall_ne_some]
  simp only [ne_eq, startable_eq_some, not_and, not_not]

theorem Quitting.not_callsDoFork (hq : Quitting s) (l : Label) : callsDoFork s l = false := by
  cases l with
  | start c =>
    unfold callsDoFork
    cases s.pc.turn with
    | none => rfl
    | some r => rw [Option.bind_some, hq.idle r]; rfl
  | _ => rfl

theorem Quitting.not_forkOf (hq : Quitting s) (l : Label) : forkOf H s l = none := by
  cases hf : forkOf H s l with
  | none => rfl
  | some r =>
    obtain ⟨c, site, todo, p, -, -, hp, hr, hn, -⟩ := forkOf_eq_some hf
    exact absurd (startable_eq_none.mp (hq.idle r) p hp hr) hn

/-- Where nothing is forked, the children after a step were there before it. -/
theorem becomes_of_effect (he : Effect H s l s') (hno : ∀ r, forkOf H s l = some r → FailedFork H s l)
    {pid : ℤ} {c' : Child} (hc : s'.kernel.children[pid]? = some c') :
    ∃ c, s.kernel.children[pid]? = some c ∧ c.Becomes c' := by
  rcases child_of_effect he hc with h | ⟨c, out, err, rfl, hf, hpid, -⟩
  · exact h
  · obtain ⟨c₁, r₁, hl, -, hnone⟩ := (hno _ hf).forkOf
    cases hl
    rw [hpid] at hnone
    cases hnone

/-- Nothing becomes startable, save by the notifications. -/
theorem idle_of_effect (hw : WellFormed base) (hi : Ids base s) (he : Effect H s l s')
    (hidle : ∀ r, startable s r = none) (hquiet : l = .notify → ∀ r p, ¬ MayBegin s r p) (r : Ref) :
    startable s' r = none := by
  have hidle' := fun r => startable_eq_none.mp (hidle r)
  rw [startable_eq_none]
  intro p hp hr
  cases he with
  | setup | setupFailed | skipped | started | epollWait | reapUnknown | reaped | output | hungUp | eventFailed
  | exitTest | act => exact hidle' r p hp hr
  | notify hpc =>
    by_contra hn
    have hp : (notifyAll s).objs[r]? = some p := hp
    have hcan : CanStart s r := (notified_ready_iff hw hi).mp (by rw [Sys.stateOf_eq hp, hr])
    rw [notifyAll_get (hi.sensible hw), Option.map_eq_some_iff] at hp
    obtain ⟨p₀, hp₀, he⟩ := hp
    have hname : p.name = p₀.name := by
      rw [← he]
      unfold ChildProcess.released
      split
      · split <;> rfl
      · rfl
    exact hquiet rfl r p₀ ⟨hp₀, hcan, hname ▸ hn⟩
  | threw _ hp' hr' hn | unregistered _ hp' hr' hn | forked _ hp' hr' hn => exact absurd (hidle' _ _ hp' hr') hn
  | reap => exact hidle' r p (get_of_reaped hp hr) hr
  | signalled =>
    rw [signalReceived_objs] at hp
    rw [signalReceived_loggers]
    exact hidle' r p hp hr
  | signal =>
    rw [deliver_objs] at hp
    rw [deliver_loggers]
    exact hidle' r p hp hr

/-- should_quit stays. -/
theorem quit_of_effect (he : Effect H s l s') (hq : s.handler.shouldQuit = true) :
    s'.handler.shouldQuit = true := by
  cases he with
  | @signalled c e batch n =>
    rw [signalReceived_kills]
    show (s.handler.shouldQuit || _) = true
    rw [hq, Bool.true_or]
  | signal => rwa [deliver_handler]
  | _ => exact hq

theorem quitting_step (hw : WellFormed base) (hi : Ids base s) (he : Effect H s l s') (hq : Quitting s)
    (hquiet : l = .notify → ∀ r p, ¬ MayBegin s r p) : Quitting s' := by
  refine ⟨quit_of_effect he hq.quit, idle_of_effect hw hi he hq.idle hquiet, fun pid c' hc => ?_⟩
  have hno : ∀ r, forkOf H s l = some r → FailedFork H s l := fun r hr => by
    rw [hq.not_forkOf l] at hr
    cases hr
  obtain ⟨c, hc, hbecomes⟩ := becomes_of_effect he hno hc
  exact hbecomes.signalled (hq.told pid c hc)

/-- The step that handles a signal begins the end. -/
theorem quitting_of_handles (h : Runs H progs tr s) (hs : step H s l = some s') (hh : Handles s l) :
    Quitting s' := by
  obtain ⟨hi, -, he⟩ := run_effect h hs
  obtain ⟨c, e, batch, n, rfl, hpc, hsig, hn, hterm⟩ := hh
  cases he with
  | signalled hpc' hsig' hn' =>
    rw [hn] at hn'
    cases hn'
    refine ⟨?_, fun r => startable_eq_none.mpr fun p hp hr => ?_, fun pid c hc => ?_⟩
    · rw [signalReceived_kills]
      show (s.handler.shouldQuit || asksToQuit n) = true
      rw [asksToQuit_of_termination hterm, Bool.or_true]
    · -- the signal is handled between two calls
      rw [signalReceived_kills] at hp ⊢
      exact logged_of_ready h (by rw [hpc]; rfl) hp hr
    · refine told_signalReceived (fun pid c₀ hc₀ => ?_) hterm hc
      obtain ⟨-, hid⟩ := hi.child pid c₀ hc₀
      rw [Std.ExtTreeMap.mem_iff_isSome_getElem?]
      show (s.handler.idForPid[pid]?).isSome = true
      rw [hid, Option.isSome_some]
  | output hpc' hsig' =>
    rw [hpc] at hpc'
    cases hpc'
    exact absurd hsig hsig'
  | hungUp hpc' hsig' =>
    rw [hpc] at hpc'
    cases hpc'
    exact absurd hsig hsig'
  | eventFailed hpc' hor =>
    rw [hpc] at hpc'
    cases hpc'
    rcases hor with ⟨-, hnone⟩ | ⟨hsig', -⟩
    · rw [hn] at hnone
      cases hnone
    · exact absurd hsig hsig'

theorem quitting_run (h : Runs H progs pre t) (hrun : Run (step H) t post s) (hq : Quitting t)
    (hquiet : ∀ e ∈ post, e.2 = .notify → e.1.handler.shouldQuit = true → ∀ r p, ¬ MayBegin e.1 r p) :
    Quitting s ∧ ∀ e ∈ post, callsDoFork e.1 e.2 = false := by
  induction hrun with
  | refl => exact ⟨hq, List.forall_mem_nil _⟩
  | @snoc post s s' l hrun hs ih =>
    rw [List.forall_mem_append, List.forall_mem_singleton] at hquiet
    obtain ⟨hq', hno⟩ := ih hquiet.1
    obtain ⟨hi, -, he⟩ := run_effect (h.trans hrun) hs
    refine ⟨quitting_step (boot_wellFormed H progs) hi he hq' fun hl => hquiet.2 hl hq'.quit, ?_⟩
    rw [List.forall_mem_append, List.forall_mem_singleton]
    exact ⟨hno, hq'.not_callsDoFork l⟩

/-! ### The end -/

/-- A turn of `start_programs` throws only what its attempt throws and nothing catches. -/
theorem abrupt_start {c : StartCalls} (hs : step H s (.start c) = some s') (ht : s'.pc.isThrown = true) :
    Abrupt H s (.start c) := by
  simp only [step] at hs
  split at hs
  swap
  · cases hs
  rename_i site r todo hpc
  simp only [Option.ite_none_right_eq_some, Option.some.injEq] at hs
  obtain ⟨-, rfl⟩ := hs
  have hexn : (startTurn H c r s).2.isSome = escapes H (fun _ => c) s r :=
    @turn_exn H s r fun _ => c
  have hthrows : (startTurn H c r s).2.isSome = true := by
    generalize startTurn H c r s = q at ht
    rcases q with ⟨s₁, _ | e⟩
    · cases ht
    · rfl
  rw [hexn, escapes, Option.any_eq_true] at hthrows
  obtain ⟨p, hp, haborts⟩ := hthrows
  exact ⟨r, p, by rw [hpc]; rfl, hp, aborts_iff.mp haborts⟩

theorem thrown_event {c : EventCalls} (he : Effect H s (.event c) s') (ht : s'.pc.isThrown = true) :
    ∃ e batch, s.pc = .handling (e :: batch) ∧
      (e.fd = s.handler.signalFd ∧ c.signal = none ∨ e.fd ≠ s.handler.signalFd ∧ c.epollDel = false) := by
  cases he with
  | signalled | output | hungUp => cases ht
  | eventFailed hpc hor => exact ⟨_, _, hpc, hor⟩

/-- An event throws where `read` of the signal or `epoll_ctl` for a lost writer fails. -/
theorem abrupt_event (h : Runs H progs tr s) {c : EventCalls} (hs : step H s (.event c) = some s')
    (ht : s'.pc.isThrown = true) : Abrupt H s (.event c) := by
  obtain ⟨-, -, he⟩ := run_effect h hs
  obtain ⟨e, batch, hpc, hor⟩ := thrown_event he ht
  refine ⟨e, batch, hpc, ?_⟩
  rcases hor with ⟨hsig, hnone⟩ | ⟨hsig, hdel⟩
  · rw [if_pos hsig]
    exact hnone
  · rw [if_neg hsig]
    refine ⟨?_, hdel⟩
    by_contra hin
    -- no `epoll_ctl` is called for readable output, so its answer does not matter
    have hs' : step H s (.event { c with epollDel := true }) = some s' := by
      rw [← hs]
      simp only [step, hpc, eventReceived, Bool.not_eq_false] at hin ⊢
      simp only [hin, if_true, if_neg hsig]
      rfl
    obtain ⟨-, -, he'⟩ := run_effect h hs'
    obtain ⟨e', batch', hpc', hor'⟩ := thrown_event he' ht
    rw [hpc] at hpc'
    cases hpc'
    rcases hor' with ⟨hsig', -⟩ | ⟨-, hdel'⟩
    · exact hsig hsig'
    · cases hdel'

/-- **scinit ends** by returning or abruptly. -/
theorem abrupt_of_ended (h : Runs H progs tr s) (hs : step H s l = some s') (hpc : s.pc ≠ .setup)
    (hend : s'.pc.ended = true) : (∃ rc, s'.pc = .returned rc) ∨ Abrupt H s l := by
  obtain ⟨-, -, he⟩ := run_effect h hs
  have hgoing := not_ended_of_step hs
  cases he with
  | setup hpc' | setupFailed hpc' => exact absurd hpc' hpc
  | notify | skipped | forked | epollWait | reaped | signalled | output | hungUp => cases hend
  | threw _ _ _ _ _ hpc' =>
    rcases hpc' with rfl | ⟨e, rfl⟩
    · cases hend
    · exact Or.inr (abrupt_start hs rfl)
  | unregistered => exact Or.inr (abrupt_start hs rfl)
  | eventFailed => exact Or.inr (abrupt_event h hs rfl)
  | reap | reapUnknown | act =>
    have hend : s.pc.ended = true := hend
    rw [hgoing] at hend
    cases hend
  | @started site =>
    have hend : (afterStart site s).ended = true := hend
    rcases afterStart_cases site s with ⟨-, h⟩ | ⟨-, -, h⟩ | ⟨-, h⟩
    · rw [h] at hend
      cases hend
    · exact Or.inl ⟨0, h⟩
    · rw [h] at hend
      cases hend
  | exitTest =>
    have hend : (afterBatch s).ended = true := hend
    rcases afterBatch_cases s with ⟨-, -, h⟩ | ⟨-, h⟩ | ⟨-, h⟩
    · exact Or.inl ⟨0, h⟩
    · rw [h] at hend
      cases hend
    · rw [h] at hend
      cases hend
  | @signal n =>
    rcases deliver_cases H n s with ⟨p, hd⟩ | ⟨hmask, hpid, -⟩
    · rw [hd] at hend
      have hend : s.pc.ended = true := hend
      rw [hgoing] at hend
      cases hend
    · exact Or.inr ⟨hmask, hpid.2, hpid.1⟩

/-- Nothing leads back before `setup_signal_handlers`. -/
theorem setup_of_effect (he : Effect H s l s') (hpc : s'.pc = .setup) : s.pc = .setup ∧ ∀ n, l ≠ .signal n := by
  cases he with
  | setup | setupFailed | notify | skipped | unregistered | forked | epollWait | reaped | signalled | output
  | hungUp | eventFailed => cases hpc
  | threw _ _ _ _ _ hpc' => rcases hpc' with rfl | ⟨e, rfl⟩ <;> cases hpc
  | reap | reapUnknown | act => exact ⟨hpc, fun _ h => by cases h⟩
  | @started site =>
    have hpc : afterStart site s = .setup := hpc
    rcases afterStart_cases site s with ⟨-, h⟩ | ⟨-, -, h⟩ | ⟨-, h⟩ <;> rw [h] at hpc <;> cases hpc
  | exitTest =>
    have hpc : afterBatch s = .setup := hpc
    rcases afterBatch_cases s with ⟨-, -, h⟩ | ⟨-, h⟩ | ⟨-, h⟩ <;> rw [h] at hpc <;> cases hpc
  | @signal n _ hno =>
    rcases deliver_cases H n s with ⟨p, hd⟩ | ⟨-, -, hd⟩
    · rw [hd] at hpc
      exact absurd hpc hno
    · rw [hd] at hpc
      cases hpc

/-- Signals are sent after `setup_signal_handlers`. -/
theorem not_setup_of_sent (h : Runs H progs tr s) (hsent : Sent tr) : s.pc ≠ .setup := by
  induction h with
  | refl =>
    obtain ⟨e, he, -⟩ := hsent
    cases he
  | @snoc tr s s' l h hs ih =>
    intro hpc
    obtain ⟨-, -, he⟩ := run_effect h hs
    obtain ⟨hpc', hl⟩ := setup_of_effect he hpc
    obtain ⟨e, hmem, n, hterm, hn⟩ := hsent
    rcases List.mem_append.mp hmem with hmem | hmem
    · exact ih ⟨e, hmem, n, hterm, hn⟩ hpc'
    · rw [List.mem_singleton.mp hmem] at hn
      exact hl n hn

/-- A run that goes on orderly keeps the protocol. -/
theorem shutsDown_of_run (h : Runs H progs tr s) (hord : Orderly H tr) : ShutsDown tr s := by
  have hquitting : ∀ {pre post v}, tr = pre ++ post → Runs H progs pre v → v.handler.shouldQuit = true →
      Quitting v := by
    rintro pre post v rfl hpre hq
    obtain ⟨⟨t, l⟩, hm, hh⟩ := handled_of_quit hpre hq
    obtain ⟨as, bs, t', rfl, ht, hs, hrun⟩ := hpre.step_of_mem hm
    refine (quitting_run (ht.snoc hs) hrun (quitting_of_handles ht hs hh) fun e he hl hquit => ?_).1
    exact hord.quiet e (List.mem_append_left _ (by simp [he])) hl hquit
  refine ⟨fun hsent hend => ?_, ?_⟩
  · cases h with
    | refl =>
      obtain ⟨e, he, -⟩ := hsent
      cases he
    | @snoc tr s s' l h hs =>
      obtain ⟨-, -, he⟩ := run_effect h hs
      have hpc : s.pc ≠ .setup := fun hpc => by
        obtain ⟨e, hmem, n, hterm, hn⟩ := hsent
        rcases List.mem_append.mp hmem with hmem | hmem
        · exact not_setup_of_sent h ⟨e, hmem, n, hterm, hn⟩ hpc
        · obtain rfl := List.mem_singleton.mp hmem
          have hn : l = .signal n := hn
          subst hn
          cases he with
          | signal _ hno => exact hno hpc
      intro pid c' hc' halive
      rcases abrupt_of_ended h hs hpc hend with ⟨rc, hrc⟩ | habrupt
      · obtain ⟨hsize, -⟩ := no_children_of_returned (h.snoc hs) hrc
        rw [Std.ExtTreeMap.eq_empty_iff_size_eq_zero.mpr hsize] at hc'
        cases hc'
      · rcases hord.prepared tr s l [] rfl hsent habrupt with hq | ⟨hdead, hfork⟩
        · have hquit := hquitting rfl h hq
          have hno : ∀ r, forkOf H s l = some r → FailedFork H s l := fun r hr => by
            rw [hquit.not_forkOf l] at hr
            cases hr
          obtain ⟨c, hc, hbecomes⟩ := becomes_of_effect he hno hc'
          exact hbecomes.signalled (hquit.told pid c hc)
        · have hno : ∀ r, forkOf H s l = some r → FailedFork H s l := fun r hr => by
            obtain ⟨c, site, todo, p, rfl, hpc', hp, hready, hn, hexn⟩ := forkOf_eq_some hr
            refine failedFork_of_fork hr (hfork c r p rfl ?_ (startable_eq_some.mpr ⟨hp, hready, hn⟩)
              ((doFork_exn_iff r hready _).mp hexn))
            rw [hpc']
            rfl
          obtain ⟨c, hc, hbecomes⟩ := becomes_of_effect he hno hc'
          exact absurd (hbecomes.alive halive) (hdead pid c hc)
  · rintro pre ⟨u, l⟩ post rfl hh
    obtain ⟨hpre, t, hs, hrun⟩ := h.split
    obtain ⟨hq, hno⟩ := quitting_run (hpre.snoc hs) hrun (quitting_of_handles hpre hs hh) fun e he hl hquit =>
      hord.quiet e (by simp [he]) hl hquit
    exact ⟨hno, fun pid id c _ hc => hq.told pid c hc⟩

/-! ### Where it is broken -/

/-- Before `should_quit` is set no child was sent a signal that asks for its end. -/
theorem unsignalled_of_not_quit (h : Runs H progs tr s) (hq : s.handler.shouldQuit = false) {pid : ℤ} {c : Child}
    (hc : s.kernel.children[pid]? = some c) : c.signalled = false := by
  induction h generalizing pid c with
  | refl =>
    rw [boot_kernel] at hc
    simp at hc
  | @snoc tr s s' l h hs ih =>
    obtain ⟨-, -, he⟩ := run_effect h hs
    have hq₀ : s.handler.shouldQuit = false := by
      by_contra hne
      rw [quit_of_effect he (Bool.not_eq_false _ ▸ hne)] at hq
      cases hq
    have ih := fun {pid c} => @ih hq₀ pid c
    cases he with
    | setup | setupFailed | notify | skipped | started | epollWait | reapUnknown | reaped | output | hungUp
    | eventFailed | exitTest => exact ih hc
    | threw _ _ _ _ hk => exact ih (hk.children ▸ hc)
    | @unregistered c' | @forked c' =>
      have hc : (s.kernel.forked c' ..).children[pid]? = some c := hc
      rw [Kernel.forked_child] at hc
      split at hc
      · cases hc
        rfl
      · exact ih hc
    | @reap _ pid' =>
      have hc : (s.kernel.children.erase pid')[pid]? = some c := hc
      rw [Std.ExtTreeMap.getElem?_erase] at hc
      split at hc
      · cases hc
      · exact ih hc
    | @signalled c' e batch n hpc hfd hn hpending =>
      -- it is SIGCHLD, which is forwarded to nobody
      have hchld : n = sigChld := by
        have hmask := run_pending h n hpending
        simp only [List.mem_cons, List.not_mem_nil, or_false] at hmask
        refine hmask.resolve_right fun hterm => ?_
        rw [signalReceived_kills] at hq
        have hasks : asksToQuit n = false := (Bool.or_eq_false_iff.mp hq).2
        rcases hterm with rfl | rfl <;> revert hasks <;> decide
      subst hchld
      exact ih hc
    | act _ ha =>
      obtain ⟨c₀, st, hc₀, rfl, -⟩ := (Kernel.acted ha).child pid c hc
      show c₀.signalled = false
      exact ih hc₀
    | signal =>
      rw [deliver_children] at hc
      exact ih hc

/-- A step that ends scinit abruptly ends it. -/
theorem ended_of_abrupt (h : Runs H progs tr s) (hs : step H s l = some s') (habrupt : Abrupt H s l) :
    s'.pc.ended = true := by
  obtain ⟨-, -, he⟩ := run_effect h hs
  cases l with
  | signal n =>
    obtain ⟨hmask, hharm, hpid⟩ := habrupt
    cases he with
    | signal =>
      have hno : ¬ (H.isPid1 = true ∨ n ∈ harmlessSignals) := by
        rw [hpid]
        exact not_or.mpr ⟨Bool.false_ne_true, hharm⟩
      rw [deliver, if_neg hmask, if_neg hno]
      rfl
  | start c =>
    obtain ⟨r, p, hturn, hst, haborts⟩ := habrupt
    simp only [step] at hs
    split at hs
    swap
    · cases hs
    rename_i site x todo hpc
    simp only [Option.ite_none_right_eq_some, Option.some.injEq] at hs
    obtain ⟨-, rfl⟩ := hs
    rw [hpc] at hturn
    obtain rfl := Option.some.inj hturn
    have hthrows : (startTurn H c x s).2.isSome = true := by
      rw [@turn_exn H s x fun _ => c, escapes, hst, Option.any_some]
      exact aborts_iff.mpr haborts
    obtain ⟨e, hexn⟩ := Option.isSome_iff_exists.mp hthrows
    rw [Sys.goto, hexn]
    rfl
  | event c =>
    obtain ⟨e, batch, hpc, hfails⟩ := habrupt
    cases he with
    | eventFailed => rfl
    | signalled hpc' hfd hn =>
      rw [hpc] at hpc'
      cases hpc'
      rw [if_pos hfd, hn] at hfails
      cases hfails
    | output hpc' hfd hin =>
      rw [hpc] at hpc'
      cases hpc'
      rw [if_neg hfd, hin] at hfails
      cases hfails.1
    | hungUp hpc' hfd _ _ _ hdel =>
      rw [hpc] at hpc'
      cases hpc'
      rw [if_neg hfd, hdel] at hfails
      cases hfails.2
  | _ => exact habrupt.elim

/-- Where it ends before a signal was handled and all children that live were told, none lives. -/
theorem alone_of_told (h : Runs H progs tr s) (hs : step H s l = some s') (habrupt : Abrupt H s l)
    (hq : s.handler.shouldQuit = false) (htold : Told s') : Alone H s l := by
  obtain ⟨-, -, he⟩ := run_effect h hs
  have hdead : (∀ (pid : ℤ) (c : Child), s.kernel.children[pid]? = some c → s'.kernel.children[pid]? = some c) →
      ∀ (pid : ℤ) (c : Child), s.kernel.children[pid]? = some c → c.status ≠ none := by
    intro hkept pid c hc halive
    have hsignalled := htold pid c (hkept pid c hc) halive
    rw [unsignalled_of_not_quit h hq hc] at hsignalled
    cases hsignalled
  cases l with
  | signal n =>
    refine ⟨hdead fun pid c hc => ?_, fun _ _ _ hl => by cases hl⟩
    cases he with
    | signal => rwa [deliver_children]
  | event c =>
    refine ⟨hdead fun pid ch hch => ?_, fun _ _ _ hl => by cases hl⟩
    cases he with
    | output | hungUp | eventFailed => exact hch
    | signalled hpc' hfd hn =>
      obtain ⟨e, batch, hpc, hfails⟩ := habrupt
      rw [hpc] at hpc'
      cases hpc'
      rw [if_pos hfd, hn] at hfails
      cases hfails
  | start c =>
    obtain ⟨r, p, hturn, hst, haborts⟩ := habrupt
    obtain ⟨hp, hready, hn⟩ := startable_eq_some.mp hst
    have hsame : ∀ {site : Site} {x : Ref} {todo : List Ref} {q : ChildProcess}, s.pc = .starting site (x :: todo) →
        s.objs[x]? = some q → x = r ∧ q = p := by
      intro site x todo q hpc hq
      rw [hpc] at hturn
      obtain rfl := Option.some.inj hturn
      exact ⟨rfl, Option.some.inj (hq.symm.trans hp)⟩
    -- the attempt makes no child that lives
    suffices (∀ (pid : ℤ) (ch : Child), s.kernel.children[pid]? = some ch → s'.kernel.children[pid]? = some ch) ∧
        (ReachesFork H c p → c.fork = none) by
      refine ⟨hdead this.1, fun c' r' p' hl hturn' hst' => ?_⟩
      cases hl
      obtain rfl := Option.some.inj (hturn.symm.trans hturn')
      obtain rfl := Option.some.inj (hst.symm.trans hst')
      exact this.2
    cases he with
    | skipped hpc hskip =>
      rw [hpc] at hturn
      obtain rfl := Option.some.inj hturn
      exact absurd (hskip p hp hready) hn
    | threw hpc hp' _ _ hk _ hexn =>
      obtain ⟨rfl, rfl⟩ := hsame hpc hp'
      refine ⟨fun pid ch hch => ?_, fun hreach => absurd ((doFork_exn_iff _ hready _).mpr hreach) hexn⟩
      show _ = _
      rw [hk.children]
      exact hch
    | @unregistered _ site x todo q out err b b' environment epoll exn hpc hp' =>
      obtain ⟨rfl, rfl⟩ := hsame hpc hp'
      have hget : ∀ pid : ℤ, (s.kernel.forked c out err (childOf x q out err environment)).children[pid]? =
          if c.fork = some pid then some (childOf x q out err environment) else s.kernel.children[pid]? :=
        Kernel.forked_child s.kernel c out err _
      have hnone : c.fork = none := by
        by_contra hne
        obtain ⟨pid, hpid⟩ := Option.ne_none_iff_exists'.mp hne
        have huntold := htold pid _ ((hget pid).trans (if_pos hpid)) rfl
        cases huntold
      refine ⟨fun pid ch hch => (hget pid).trans ?_, fun _ => hnone⟩
      rw [hnone, if_neg fun h => by cases h]
      exact hch
    | forked hpc hp' _ _ _ _ _ hexn hout herr =>
      obtain ⟨rfl, rfl⟩ := hsame hpc hp'
      have hthrows := aborts_iff.mpr haborts
      rw [attemptExn_eq_none.mpr ⟨(doFork_exn_iff _ hready _).mp hexn, hout, herr⟩] at hthrows
      cases hthrows
  | _ => exact habrupt.elim

/-- A call in which something can be started comes to a turn that calls `do_fork`. -/
theorem exists_callsDoFork {site : Site} {r : Ref} {p : ChildProcess} : ∀ (todo : List Ref) {s : Sys},
    s.pc = .starting site todo → r ∈ todo → startable s r = some p →
      ∃ post u, Run (step H) s post u ∧ ∃ e ∈ post, callsDoFork e.1 e.2 = true
  | [], s, _, hr, _ => absurd hr List.not_mem_nil
  | x :: todo, s, hpc, hr, hst => by
    obtain ⟨fd, pid, hk⟩ := exists_mayStart s.kernel
    have hs : step H s (.start (attemptOk fd pid)) =
        some (Sys.goto (startTurn H (attemptOk fd pid) x s) (.starting site todo)) := by
      simp only [step, hpc, hk, if_true]
    cases hx : startable s x with
    | some q =>
      refine ⟨_, _, .single hs, (s, _), List.mem_singleton_self _, ?_⟩
      simp only [callsDoFork, hpc, Pc.turn, Option.bind_some, hx, Option.isSome_some]
    | none =>
      have hne : r ≠ x := fun he => by
        rw [he, hx] at hst
        cases hst
      rw [startTurn_idle hx] at hs
      obtain ⟨post, u, hrun, e, he, hcalls⟩ := exists_callsDoFork todo (s := { s with pc := .starting site todo })
        rfl ((List.mem_cons.mp hr).resolve_left hne) hst
      exact ⟨_, u, (Run.single hs).trans hrun, e, List.mem_append_right _ he, hcalls⟩

/-- Where a process can be started by a call with `should_quit` set, the run can go on to start it. -/
theorem broken_of_begins (h : Runs H progs pre t) {site : Site} (hpc : t.pc = .notify site)
    (hq : t.handler.shouldQuit = true) {r : Ref} {p : ChildProcess} (hp : MayBegin t r p) :
    ∃ post u, Runs H progs (pre ++ (t, .notify) :: post) u ∧ ¬ ShutsDown (pre ++ (t, .notify) :: post) u := by
  have hi := run_ids h
  have hs : step H t .notify = some { notifyAll t with pc := .starting site t.handler.allObjs } := by
    simp only [step, hpc]
  have hlisted : r ∈ t.handler.allObjs := by
    rw [hi.allObjs, List.mem_range]
    exact hi.lt_of_get hp.1
  have hst : startable (notifyAll t) r = some { p with state := .ready } :=
    (startable_notifyAll (boot_wellFormed H progs) hi).mpr ⟨p, hp, rfl⟩
  obtain ⟨post, u, hrun, e, he, hcalls⟩ := exists_callsDoFork (H := H) t.handler.allObjs
    (s := { notifyAll t with pc := .starting site t.handler.allObjs }) rfl hlisted hst
  refine ⟨post, u, h.trans ((Run.single hs).trans hrun), fun hdown => ?_⟩
  obtain ⟨e₀, he₀, hh⟩ := handled_of_quit h hq
  obtain ⟨as, bs, rfl⟩ := List.append_of_mem he₀
  have hno := (hdown.handled as e₀ (bs ++ (t, .notify) :: post) (by simp) hh).1 e (by simp [he])
  rw [hcalls] at hno
  cases hno

/-- **The shutdown is in order** in every run that goes on orderly. A run that does not
has a beginning that is not orderly already and breaks the protocol, or can go on so. -/
theorem shutsDown_of_orderly (h : Runs H progs tr s) : (Orderly H tr → ShutsDown tr s) ∧
    (¬ Orderly H tr → ∃ pre post u, pre <+: tr ∧ ¬ Orderly H pre ∧ Runs H progs (pre ++ post) u ∧
      ¬ ShutsDown (pre ++ post) u) := by
  refine ⟨shutsDown_of_run h, fun hnot => ?_⟩
  by_cases hquiet : ∀ e ∈ tr, e.2 = .notify → e.1.handler.shouldQuit = true → ∀ r p, ¬ MayBegin e.1 r p
  · have hprepared : ∃ pre t l post, tr = pre ++ (t, l) :: post ∧ Sent (pre ++ [(t, l)]) ∧ Abrupt H t l ∧
        ¬ (t.handler.shouldQuit = true ∨ Alone H t l) := by
      by_contra hno
      push Not at hno
      exact hnot ⟨fun pre t l post htr hsent habrupt =>
        or_iff_not_imp_left.mpr fun hq => by_contra fun ha => (hno pre t l post htr hsent habrupt).elim hq ha, hquiet⟩
    obtain ⟨pre, t, l, post, rfl, hsent, habrupt, hneither⟩ := hprepared
    rw [not_or] at hneither
    obtain ⟨hpre, t', hs, -⟩ := h.split
    refine ⟨pre ++ [(t, l)], [], t', ⟨post, by simp⟩, fun hord => ?_, ?_, fun hdown => ?_⟩
    · exact not_or.mpr hneither (hord.prepared pre t l [] rfl hsent habrupt)
    · rw [List.append_nil]
      exact hpre.snoc hs
    · rw [List.append_nil] at hdown
      have htold := hdown.ended hsent (ended_of_abrupt hpre hs habrupt)
      exact hneither.2 (alone_of_told hpre hs habrupt (Bool.not_eq_true _ ▸ hneither.1) htold)
  · push Not at hquiet
    obtain ⟨⟨t, l⟩, hm, hl, hq, r, p, hp⟩ := hquiet
    have hl : l = .notify := hl
    subst hl
    obtain ⟨pre, post₀, t', rfl, hpre, hs, -⟩ := h.step_of_mem hm
    obtain ⟨-, -, he⟩ := run_effect hpre hs
    cases he with
    | notify hpc =>
      obtain ⟨post, u, hrun, hbroken⟩ := broken_of_begins hpre hpc hq hp
      refine ⟨pre ++ [(t, .notify)], post, u, ⟨post₀, by simp⟩, fun hord => ?_, ?_, ?_⟩
      · exact hord.quiet (t, .notify) (by simp) rfl hq r p hp
      · simpa using hrun
      · simpa using hbroken

/-- A program is started, SIGINT is sent, and handled in the next round. -/
def interrupted : List Label :=
  [.setup setupOk, .notify, .start (startOk 10 100), .started, .notify, .start (startOk 20 101), .started,
    .signal sigInt, .epollWait [⟨3, true, false⟩], .reaped,
    .event { signal := some sigInt, nread := none, epollDel := true }, .exitTest,
    .notify, .start (startOk 20 101), .started]

theorem interrupted_possible :
    (exec (step bareHost) (boot bareHost [plain 'p' "simple" [] []]) interrupted).isSome = true := by decide

theorem shutsDown_of_orderly_interrupted :
    ShutsDown (trace (step bareHost) (boot bareHost [plain 'p' "simple" [] []]) interrupted)
      ((exec (step bareHost) (boot bareHost [plain 'p' "simple" [] []]) interrupted).get interrupted_possible) := by
  have hall : ∀ e ∈ trace (step bareHost) (boot bareHost [plain 'p' "simple" [] []]) interrupted,
      (match e.2 with
        | .signal n => decide (n ∈ e.1.kernel.mask)
        | .start c => e.1.pc.turn.all fun r => !escapes bareHost (fun _ => c) e.1 r
        | .event c => e.1.pc.batch.head?.all fun ev => ev.fd = e.1.handler.signalFd ∧ c.signal ≠ none
        | .notify => !e.1.handler.shouldQuit || e.1.objs.all fun p => p.state = .running
        | _ => true) = true := by decide
  refine (shutsDown_of_orderly (Run.of_isSome interrupted_possible)).1 ⟨fun pre t l post htr _ habrupt => ?_, ?_⟩
  · have hcheck := hall (t, l) (by rw [htr]; simp)
    exfalso
    cases l with
    | signal n => exact habrupt.1 (of_decide_eq_true hcheck)
    | start c =>
      obtain ⟨r, p, hr, hst, haborts⟩ := habrupt
      simp [hr, escapes, hst, aborts_iff.mpr haborts] at hcheck
    | event c =>
      obtain ⟨e, batch, hpc, hfails⟩ := habrupt
      simp only [hpc, Pc.batch, List.head?_cons, Option.all_some, decide_eq_true_eq] at hcheck
      rw [if_pos hcheck.1] at hfails
      exact hcheck.2 hfails
    | _ => exact habrupt
  · rintro ⟨t, l⟩ hmem hl hquit r p ⟨hp, hcan, -⟩
    have hcheck := hall (t, l) hmem
    obtain rfl : l = .notify := hl
    have hquit : t.handler.shouldQuit = true := hquit
    have hp : t.objs[r]? = some p := hp
    simp only [hquit, Bool.not_true, Bool.false_or, List.all_eq_true, decide_eq_true_eq] at hcheck
    have hrun := hcheck p (List.mem_of_getElem? hp)
    rcases hcan with hr | ⟨p', hp', hb, -⟩
    · have hr : t.stateOf r = some .ready := hr
      rw [Sys.stateOf_eq hp, hrun] at hr
      cases hr
    · have hp' : t.objs[r]? = some p' := hp'
      rw [hp] at hp'
      cases hp'
      rw [hrun] at hb
      cases hb

/-- A program is started and SIGTERM is sent. -/
def terminated : List Label :=
  [.setup setupOk, .notify, .start (startOk 10 100), .started, .signal sigTerm]

theorem terminated_possible :
    (exec (step bareHost) (boot bareHost [plain 'p' "simple" [] []]) terminated).isSome = true := by decide

/-- SIGTERM ends scinit, and the program is told nothing. -/
theorem untold_child : ∃ tr s, Runs bareHost [plain 'p' "simple" [] []] tr s ∧ Sent tr ∧ s.pc.ended = true ∧
    ¬ Told s := by
  refine ⟨_, _, Run.of_isSome terminated_possible, ?_, by decide, fun htold => ?_⟩
  · have hany : ((trace (step bareHost) (boot bareHost [plain 'p' "simple" [] []]) terminated).any fun e =>
        match e.2 with | .signal n => decide (n ∈ terminationSignals) | _ => false) = true := by decide
    obtain ⟨⟨t, l⟩, hmem, hl⟩ := List.any_eq_true.mp hany
    cases l with
    | signal n => exact ⟨(t, .signal n), hmem, n, of_decide_eq_true hl, rfl⟩
    | _ => cases hl
  · have hchild : (((exec (step bareHost) (boot bareHost [plain 'p' "simple" [] []]) terminated).get
        terminated_possible).kernel.children[(100 : ℤ)]?.any fun c =>
          c.status = none ∧ c.signalled = false) = true := by decide
    obtain ⟨c, hc, hlives⟩ := (Option.any_eq_true _ _).mp hchild
    obtain ⟨halive, huntold⟩ := of_decide_eq_true hlives
    rw [htold 100 c hc halive] at huntold
    cases huntold

/-- A program that another waits for, and a third that goes on. -/
def chain : List Program := [plain 'p' "oneshot" [] [], plain 'q' "oneshot" [] ['p'], plain 'r' "simple" [] []]

/-- The first and the third are started, and SIGINT is sent. -/
def asked : List Label :=
  [.setup setupOk,
    .notify, .start (startOk 10 100), .start (startOk 20 101), .start (startOk 20 101), .started,
    .notify, .start (startOk 30 102), .start (startOk 30 102), .start (startOk 30 102), .started,
    .signal sigInt, .epollWait [⟨3, true, false⟩], .reaped]

/-- It is handled, and in the next round the first exits. -/
def answered : List Label :=
  [.exitTest, .notify, .start (startOk 30 102), .start (startOk 30 102), .start (startOk 30 102), .started,
    .act (.exit 100 0), .epollWait [⟨3, true, false⟩], .reap 100 0, .reaped,
    .event { signal := some sigChld, nread := none, epollDel := true }, .exitTest,
    .notify, .start (startOk 30 102), .start (startOk 30 102)]

theorem asked_possible : (exec (step bareHost) (boot bareHost chain) asked).isSome = true := by decide

def asks : Label := .event { signal := some sigInt, nread := none, epollDel := true }

theorem answered_possible :
    (exec (step bareHost) (boot bareHost chain) (asked ++ asks :: answered)).isSome = true := by decide

/-- The call at the head of the loop forks what the exit released, though SIGINT was handled. -/
theorem forked_after_signal : ∃ pre e post s, Runs bareHost chain (pre ++ e :: post) s ∧ Handles e.1 e.2 ∧
    ∃ e' ∈ post, callsDoFork e'.1 e'.2 = true := by
  have hrun := Run.of_isSome answered_possible
  rw [trace_append (asks :: answered) (Option.some_get asked_possible).symm] at hrun
  generalize ht : (exec (step bareHost) (boot bareHost chain) asked).get asked_possible = t at hrun
  refine ⟨_, (t, asks), _, _, hrun, ?_, List.any_eq_true.mp ?_⟩
  · subst ht
    exact ⟨_, ⟨3, true, false⟩, [], sigInt, rfl, by decide, by decide, rfl, by decide⟩
  · subst ht
    decide

/-- **The protocol is broken** by a run that ends, and by one that forks again. -/
theorem shutdown_broken :
    (∃ tr s, Runs bareHost [plain 'p' "simple" [] []] tr s ∧ Sent tr ∧ s.pc.ended = true ∧ ¬ Told s ∧
      ¬ ShutsDown tr s) ∧
    ∃ pre e post s, Runs bareHost chain (pre ++ e :: post) s ∧ Handles e.1 e.2 ∧
      (∃ e' ∈ post, callsDoFork e'.1 e'.2 = true) ∧ ¬ ShutsDown (pre ++ e :: post) s := by
  constructor
  · obtain ⟨tr, s, hrun, hsent, hend, huntold⟩ := untold_child
    exact ⟨tr, s, hrun, hsent, hend, huntold, fun hdown => huntold (hdown.ended hsent hend)⟩
  · obtain ⟨pre, e, post, s, hrun, hh, e', he', hcalls⟩ := forked_after_signal
    refine ⟨pre, e, post, s, hrun, hh, ⟨e', he', hcalls⟩, fun hdown => ?_⟩
    have hno := (hdown.handled pre e post rfl hh).1 e' he'
    rw [hcalls] at hno
    cases hno

end Scinit
