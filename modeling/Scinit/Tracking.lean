/-
# Which pids are tracked and signalled

`id_for_pid` is what scinit knows of its children: `signal_received` sends to
each of its keys. A `fork` that fails is entered there too, under -1, and `kill`
takes -1 for every process. So the table lists the children of the running
processes and nothing else, in every state of a run, if and only if no start
attempt of the run gets to a `fork` that fails (`tracked_iff`).

Key definitions: `FailedFork`, `Tracked`.
Key theorems: `listed_of_failedFork`, `tracked_iff`, `tracked_failedFork`.
-/
import Scinit.Counter
import Scinit.Signals

namespace Scinit

open Transition

variable {H : Host} {progs : List Program} {base : Objs} {tr : List (Sys × Label)} {s s' : Sys} {l : Label}

/-- A start attempt gets to its `fork`, and the fork fails. -/
def FailedFork (H : Host) (s : Sys) (l : Label) : Prop :=
  ∃ c site ref todo p, l = .start c ∧ s.pc = .starting site (ref :: todo) ∧ s.objs[ref]? = some p ∧
    p.state = .ready ∧ p.name ∉ s.loggers ∧ ReachesFork H c p ∧ c.fork = none

theorem FailedFork.forkOf (h : FailedFork H s l) :
    ∃ c r, l = .start c ∧ forkOf H s (.start c) = some r ∧ c.fork = none := by
  obtain ⟨c, site, ref, todo, p, rfl, hpc, hp, hr, hn, hreach, hnone⟩ := h
  exact ⟨c, ref, rfl, by rw [forkOf_start hpc hp, if_pos ⟨hr, hn, (doFork_exn_iff _ hr _).mpr hreach⟩], hnone⟩

theorem failedFork_of_fork {c : StartCalls} {r : Ref} (hf : forkOf H s (.start c) = some r)
    (hnone : c.fork = none) : FailedFork H s (.start c) := by
  obtain ⟨c', site, todo, p, hc, hpc, hp, hr, hn, hexn⟩ := forkOf_eq_some hf
  cases hc
  exact ⟨c, site, r, todo, p, rfl, hpc, hp, hr, hn, (doFork_exn_iff _ hr _).mp hexn, hnone⟩

/-- Only real children are tracked: a key is the pid of a child that was forked
and not reaped, of a process that runs; a process that runs has one key; and
`kill` is called for such children only. -/
structure Tracked (s : Sys) : Prop where
  key : ∀ (pid : ℤ) (id : ℕ), s.handler.idForPid[pid]? = some id → 0 < pid ∧
    s.stateOf id = some .running ∧ ∃ c, s.kernel.children[pid]? = some c ∧ c.owner = id
  running : ∀ r : Ref, s.stateOf r = some .running → ∃! pid : ℤ, s.handler.idForPid[pid]? = some r
  killed : ∀ n, ∀ call ∈ kills n s.handler, 0 < call.1 ∧ ∃ c, s.kernel.children[call.1]? = some c

/-- A failed fork is entered under -1. -/
theorem listed_of_failedFork (he : Effect H s l s') (hf : FailedFork H s l) :
    s'.handler.idForPid.contains (-1) = true := by
  obtain ⟨c, site, ref, todo, p, rfl, hpc, hp, hr, hn, hreach, hnone⟩ := hf
  cases he with
  | skipped hpc' hskip =>
    rw [hpc] at hpc'
    cases hpc'
    exact absurd (hskip p hp hr) hn
  | threw hpc' hp' _ _ _ _ hexn =>
    rw [hpc] at hpc'
    cases hpc'
    rw [hp] at hp'
    cases hp'
    exact absurd ((doFork_exn_iff _ hr _).mpr hreach) hexn
  | unregistered => simp [Sys.forked, hnone]
  | forked => simp [Sys.forked, Sys.registered, hnone]

/-- Without a failed fork, a process that was started has a pid. -/
theorem pid_pos (h : Runs H progs tr s) (hno : ∀ e ∈ tr, ¬ FailedFork H e.1 e.2) {r : Ref}
    {p : ChildProcess} (hp : s.objs[r]? = some p) (hst : p.started) : 0 < p.primaryPid := by
  induction h generalizing p with
  | refl => exact absurd hst (boot_not_running hp).2
  | @snoc tr s s' l h hs ih =>
    simp only [List.forall_mem_append, List.forall_mem_singleton] at hno
    obtain ⟨hi, -, he⟩ := run_effect h hs
    rcases started_of_effect (boot_wellFormed H progs) hi he hp hst with
      ⟨p₀, hp₀, hs₀, -, -, hpid⟩ | ⟨c, rfl, hf, -, -, hpid⟩
    · rw [hpid]
      exact ih hno.1 hp₀ hs₀
    · cases hfork : c.fork with
      | none => exact absurd (failedFork_of_fork hf hfork) hno.2
      | some pid =>
        rw [hpid, hfork]
        have hk : s.kernel.MayStart c := by
          obtain ⟨_, site, todo, q, hc, hpc, -⟩ := forkOf_eq_some hf
          cases hc
          simp only [step, hpc, Option.ite_none_right_eq_some] at hs
          exact hs.1
        exact (hk.2.2 pid hfork).1

/-- What is tracked when every process that runs has a pid. -/
theorem tracked_of_pos (hi : Ids base s)
    (hpos : ∀ (r : Ref) (p : ChildProcess), s.objs[r]? = some p → p.state = .running → 0 < p.primaryPid) :
    Tracked s := by
  have hkey : ∀ (pid : ℤ) (id : ℕ), s.handler.idForPid[pid]? = some id → 0 < pid ∧
      s.stateOf id = some .running ∧ ∃ c, s.kernel.children[pid]? = some c ∧ c.owner = id := by
    intro pid id hid
    obtain ⟨p, hp, hrun, rfl, hc⟩ := hi.pidOwner pid id hid
    have h0 := hpos id p hp hrun
    exact ⟨h0, Sys.stateOf_eq_some.mpr ⟨p, hp, hrun⟩, hc.resolve_left (by omega)⟩
  refine ⟨hkey, fun r hr => ?_, fun n call hcall => ?_⟩
  · obtain ⟨p, hp, hrun⟩ := Sys.stateOf_eq_some.mp hr
    have h0 := hpos r p hp hrun
    refine ⟨p.primaryPid, (hi.running r p hp hrun).resolve_left (by omega), fun pid hid => ?_⟩
    obtain ⟨q, hq, -, rfl, -⟩ := hi.pidOwner pid r hid
    rw [hp, Option.some.injEq] at hq
    rw [hq]
  · have hn : n ≠ sigChld := by
      rintro rfl
      simp [kills] at hcall
    rw [kills_eq hn, List.mem_map] at hcall
    obtain ⟨pid, hpid, rfl⟩ := hcall
    obtain ⟨id, hid⟩ := Option.isSome_iff_exists.mp
      (Std.ExtTreeMap.mem_iff_isSome_getElem?.mp (Std.ExtTreeMap.mem_keys.mp hpid))
    obtain ⟨h0, -, c, hc, -⟩ := hkey pid id hid
    exact ⟨h0, c, hc⟩

/-- **Only real children are tracked and signalled**, in every state of a run, if
and only if no start attempt of the run gets to a `fork` that fails. -/
theorem tracked_iff (h : Runs H progs tr s) :
    (∀ t ∈ visited tr s, Tracked t) ↔ ∀ e ∈ tr, ¬ FailedFork H e.1 e.2 := by
  constructor
  · rintro hgood ⟨t, l⟩ hm hf
    obtain ⟨pre, post, t', rfl, hpre, hs, hpost⟩ := h.step_of_mem hm
    obtain ⟨-, -, he⟩ := run_effect hpre hs
    have hvis : t' ∈ visited (pre ++ (t, l) :: post) s := by
      rw [visited_append, List.mem_append]
      exact Or.inr (List.mem_cons_of_mem _ hpost.start_mem_visited)
    have hkey := listed_of_failedFork he hf
    rw [Std.ExtTreeMap.contains_eq_isSome_getElem?] at hkey
    obtain ⟨id, hid⟩ := Option.isSome_iff_exists.mp hkey
    have := ((hgood t' hvis).key _ id hid).1
    omega
  · intro hno t hvis
    obtain ⟨pre, post, rfl, hpre, -⟩ := h.prefix_of_visited hvis
    refine tracked_of_pos (run_ids hpre) fun r p hp hrun => ?_
    exact pid_pos hpre (fun e he => hno e (List.mem_append_left _ he)) hp
      (ChildProcess.started_of_running hrun)

theorem tracked_iff_oneShot : Tracked
    ((exec (step bareHost) (boot bareHost [plain 'p' "simple" [] []]) (oneShot 0)).get oneShot_possible) := by
  refine (tracked_iff (Run.of_isSome oneShot_possible)).mpr (fun e hm hf => ?_) _ (self_mem_visited _ _)
  obtain ⟨c, -, -, -, -, hl, -, -, -, -, -, hnone⟩ := hf
  have hall : ∀ e ∈ trace (step bareHost) (boot bareHost [plain 'p' "simple" [] []]) (oneShot 0),
      e.2.forkOk = true := by decide
  have := hall _ hm
  simp [Label.forkOk, hl, hnone] at this

/-- After a failed fork -1 is a key. -/
theorem tracked_failedFork : ¬ ∀ (H : Host) (progs : List Program) (tr : List (Sys × Label)) (s : Sys),
    Runs H progs tr s → Tracked s := by
  intro h
  have := (h _ _ _ _ (Run.of_isSome failedFork_possible)).key (-1) 0 (by decide)
  revert this
  decide

end Scinit
