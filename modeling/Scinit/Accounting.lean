/-
# How many descriptors scinit has open

What scinit opens for its children it never closes, and what a failed attempt
has opened it does not close either. So what is open after a run is the sum of
what its steps have left open. It is bounded all the same: an attempt leaves the
name of its process a logger, and no process whose name has one is tried again
(`descriptors_counted`).

Key definitions: `leftByFork`, `leftOpen`.
Key theorems: `run_fds_perm`, `run_loggers`, `descriptors_counted`.
-/
import Scinit.Exec

namespace Scinit

open Transition

variable {H : Host} {progs : List Program} {tr : List (Sys × Label)} {s s' : Sys} {l : Label}
  {c : StartCalls} {r : Ref} {p : ChildProcess}

/-- What `do_fork` leaves open: the ends scinit reads from, or whatever it had opened when it threw. -/
def leftByFork (H : Host) (c : StartCalls) (p : ChildProcess) : List ℤ :=
  match c.out, c.err with
  | none, _ => []
  | some out, none => [out.1, out.2]
  | some out, some err => if forkExn H c p = none then [err.1, out.1] else [err.1, err.2, out.1, out.2]

/-- What a step leaves open for as long as scinit lives. -/
def leftOpen (H : Host) (s : Sys) : Label → List ℤ
  | .setup c => c.epollCreate.toList ++ c.signalfd.toList
  | .start c => ((s.pc.turn.bind (startable s)).map (leftByFork H c)).getD []
  | _ => []

theorem doFork_leaves {k : Kernel} (hk : k.MayStart c) (hp : p.state = .ready) (reg : Map ℤ ℕ) :
    (doFork H c r p k reg).kernel.fds = leftByFork H c p ++ k.fds := by
  rw [doFork_fds_eq hk hp, leftByFork]
  cases c.out with
  | none => rfl
  | some out =>
    cases c.err with
    | none => rfl
    | some err =>
      dsimp only
      split <;> rfl

theorem leftByFork_length_le (H : Host) (c : StartCalls) (p : ChildProcess) : (leftByFork H c p).length ≤ 4 := by
  unfold leftByFork
  split
  · exact Nat.zero_le _
  · simp
  · split <;> simp

theorem leftByFork_nodup {k : Kernel} (hk : k.MayStart c) (h : k.fds.Nodup) : (leftByFork H c p ++ k.fds).Nodup := by
  unfold leftByFork
  cases hout : c.out with
  | none => exact h
  | some out =>
    obtain ⟨-, -, ho1, ho2, ho⟩ := hk.1 out hout
    cases herr : c.err with
    | none => simp [h, ho1, ho2, ho]
    | some err =>
      obtain ⟨-, -, he1, he2, he, hne⟩ := hk.2.1 err herr
      obtain ⟨h1, h2, h3, h4⟩ := hne out hout
      dsimp only
      split <;> simp [h, ho1, ho2, ho, he1, he2, he, h1, h2, h3, h4]

/-- A step opens what it leaves open, and closes nothing of what was open before. -/
theorem fds_step (h : Runs H progs tr s) (hs : step H s l = some s') (ht : s'.pc.isThrown = false) :
    s'.kernel.fds = leftOpen H s l ++ s.kernel.fds ∧ (s.kernel.fds.Nodup → s'.kernel.fds.Nodup) := by
  obtain ⟨-, -, he⟩ := run_effect h hs
  cases l with
  | setup c =>
    cases he with
    | @setup _ signalFd epollFd _ hk hsig hepoll =>
      obtain ⟨-, hsigfd⟩ := hk.1 signalFd hsig
      obtain ⟨-, hepollfd, hne⟩ := hk.2 epollFd hepoll
      refine ⟨?_, fun hn => ?_⟩
      · simp only [leftOpen, hsig, hepoll]
        rfl
      · refine List.nodup_cons.mpr ⟨?_, List.nodup_cons.mpr ⟨hsigfd, hn⟩⟩
        exact fun hin => (List.mem_cons.mp hin).elim (fun heq => hne (heq ▸ hsig)) hepollfd
    | setupFailed => cases ht
  | start c =>
    obtain ⟨r, hturn, hk, hfds⟩ := start_fds hs
    cases hst : startable s r with
    | none =>
      rw [hst] at hfds
      simp only [leftOpen, hturn, Option.bind_some, hst]
      exact ⟨congrArg Kernel.fds hfds, fun hn => by rwa [congrArg Kernel.fds hfds]⟩
    | some p =>
      rw [hst] at hfds
      have hleft := hfds.trans (doFork_leaves hk (startable_eq_some.mp hst).2.1 _)
      simp only [leftOpen, hturn, Option.bind_some, hst]
      exact ⟨hleft, fun hn => by rw [hleft]; exact leftByFork_nodup hk hn⟩
  | notify | started | epollWait | reap | reaped | event | exitTest | act | signal =>
    have hfds := fds_of_effect he (fun _ hl => by cases hl) fun _ hl => by cases hl
    exact ⟨hfds, fun hn => by rwa [hfds]⟩

/-- What is open is what the steps left open, and what scinit was started with. -/
theorem run_fds_perm (h : Runs H progs tr s) (ht : s.pc.isThrown = false) : s.kernel.fds.Nodup ∧
    s.kernel.fds.Perm ([0, 1, 2] ++ tr.flatMap fun e => leftOpen H e.1 e.2) := by
  induction h with
  | refl =>
    rw [boot_kernel, List.flatMap_nil]
    exact ⟨by decide, .refl _⟩
  | @snoc tr s s' l h hs ih =>
    obtain ⟨hnodup, hperm⟩ := ih (not_thrown_of_step hs)
    obtain ⟨hfds, hkeeps⟩ := fds_step h hs ht
    refine ⟨hkeeps hnodup, ?_⟩
    rw [hfds, List.flatMap_append, List.flatMap_singleton, ← List.append_assoc]
    exact (hperm.append_left _).trans List.perm_append_comm

/-! ### The attempts are few -/

/-- The names that have loggers differ, and are those of entries, but for scinit's own. -/
theorem run_loggers (h : Runs H progs tr s) :
    s.loggers.Nodup ∧ s.loggers ⊆ "scinit".toList :: progs.map Program.name := by
  induction h with
  | refl => exact ⟨List.nodup_singleton _, List.cons_subset_cons _ (List.nil_subset _)⟩
  | @snoc tr s s' l h hs ih =>
    obtain ⟨hnodup, hsub⟩ := ih
    obtain ⟨-, -, he⟩ := run_effect h hs
    have hadded : ∀ {r : Ref} {p : ChildProcess}, s.objs[r]? = some p → p.name ∉ s.loggers →
        (s.loggers ++ [p.name]).Nodup ∧ s.loggers ++ [p.name] ⊆ "scinit".toList :: progs.map Program.name := by
      intro r p hp hn
      have hpri := run_pristine h r
      rw [hp, Option.map_some, eq_comm, Option.map_eq_some_iff] at hpri
      obtain ⟨g, hg, hpri⟩ := hpri
      have hname : g.name = p.name := congrArg ChildProcess.name hpri
      refine ⟨List.nodup_append.mpr ⟨hnodup, List.nodup_singleton _, ?_⟩, List.append_subset.mpr ⟨hsub, ?_⟩⟩
      · rintro n hin m hm rfl
        exact hn (List.mem_singleton.mp hm ▸ hin)
      · rw [← hname, List.cons_subset]
        exact ⟨List.mem_cons_of_mem _ (List.mem_map_of_mem (List.mem_of_getElem? hg)), List.nil_subset _⟩
    cases he with
    | threw _ hp _ hn | unregistered _ hp _ hn | forked _ hp _ hn => exact hadded hp hn
    | signalled =>
      rw [signalReceived_loggers]
      exact ⟨hnodup, hsub⟩
    | signal =>
      rw [deliver_loggers]
      exact ⟨hnodup, hsub⟩
    | _ => exact ⟨hnodup, hsub⟩

theorem turn_eq_some {pc : Pc} (h : pc.turn = some r) : ∃ site todo, pc = .starting site (r :: todo) := by
  cases pc with
  | starting site todo =>
    cases todo with
    | nil => cases h
    | cons r' todo =>
      obtain rfl := Option.some.inj h
      exact ⟨site, todo, rfl⟩
  | _ => cases h

/-- A step leaves open at most four descriptors for a logger that it registers. -/
theorem leftOpen_length_le (h : Runs H progs tr s) (hs : step H s l = some s') (hset : s.pc ≠ .setup) :
    (leftOpen H s l).length + 4 * s.loggers.length ≤ 4 * s'.loggers.length := by
  obtain ⟨-, -, he⟩ := run_effect h hs
  have hmono : s.loggers.length ≤ s'.loggers.length :=
    ((run_loggers h).1.subperm (loggers_mono he)).length_le
  cases l with
  | setup c =>
    cases he with
    | setup hpc | setupFailed hpc => exact absurd hpc hset
  | start c =>
    obtain ⟨r, hturn, -, -⟩ := start_fds hs
    cases hst : startable s r with
    | none =>
      simp only [leftOpen, hturn, Option.bind_some, hst, Option.map_none, Option.getD_none, List.length_nil]
      omega
    | some p =>
      obtain ⟨hp, hr, hn⟩ := startable_eq_some.mp hst
      simp only [leftOpen, hturn, Option.bind_some, hst, Option.map_some, Option.getD_some]
      obtain ⟨site, todo, hpc⟩ := turn_eq_some hturn
      obtain ⟨hno, -⟩ | ⟨-, hlog⟩ := loggers_of_turn he hpc hp hr
      · exact absurd hno hn
      · have hle := leftByFork_length_le H c p
        rw [hlog, List.length_append, List.length_singleton]
        omega
  | notify | started | epollWait | reap | reaped | event | exitTest | act | signal =>
    simp only [leftOpen, List.length_nil]
    omega

theorem leftOpen_of_setup (he : Effect H s l s') (hset : s.pc = .setup) (ht : s'.pc.isThrown = false) :
    (leftOpen H s l).length ≤ (if s'.pc = .setup then 0 else 2) ∧ s'.loggers = s.loggers := by
  cases he with
  | setup _ _ hsig hepoll =>
    simp only [leftOpen, hsig, hepoll]
    exact ⟨Nat.le_refl 2, rfl⟩
  | setupFailed => cases ht
  | act | reapUnknown => exact ⟨Nat.zero_le _, rfl⟩
  | signal _ hno => exact absurd hset hno
  | notify hpc | skipped hpc | threw hpc | unregistered hpc | forked hpc | started hpc | epollWait hpc | reap hpc
  | reaped hpc | signalled hpc | output hpc | hungUp hpc | eventFailed hpc | exitTest hpc =>
    rw [hset] at hpc
    cases hpc

/-- The descriptors left open, by the loggers. -/
theorem run_leftOpen_le (h : Runs H progs tr s) (ht : s.pc.isThrown = false) :
    (tr.flatMap fun e => leftOpen H e.1 e.2).length + 4 ≤
      (if s.pc = .setup then 0 else 2) + 4 * s.loggers.length := by
  induction h with
  | refl => exact Nat.le_refl 4
  | @snoc tr s s' l h hs ih =>
    have hle := ih (not_thrown_of_step hs)
    rw [List.flatMap_append, List.flatMap_singleton, List.length_append]
    dsimp only
    obtain ⟨-, -, he⟩ := run_effect h hs
    by_cases hset : s.pc = .setup
    · obtain ⟨hleft, hlog⟩ := leftOpen_of_setup he hset ht
      rw [if_pos hset] at hle
      rw [hlog]
      omega
    · have hstep := leftOpen_length_le h hs hset
      rw [if_neg hset] at hle
      rw [if_neg fun hset' => hset (setup_of_effect he hset').1]
      omega

/-- **The descriptors scinit has open** are what its steps left open; for each entry of the
configuration there are never more than four. -/
theorem descriptors_counted (h : Runs H progs tr s) (ht : s.pc.isThrown = false) : s.kernel.fds.Nodup ∧
    s.kernel.fds.Perm ([0, 1, 2] ++ tr.flatMap fun e => leftOpen H e.1 e.2) ∧
    s.kernel.fds.length ≤ 5 + 4 * progs.length := by
  obtain ⟨hnodup, hperm⟩ := run_fds_perm h ht
  refine ⟨hnodup, hperm, ?_⟩
  have hle := run_leftOpen_le h ht
  have hlog : s.loggers.length ≤ ("scinit".toList :: progs.map Program.name).length :=
    ((run_loggers h).1.subperm (run_loggers h).2).length_le
  rw [List.length_cons, List.length_map] at hlog
  have hset : (if s.pc = .setup then 0 else 2) ≤ 2 := by split <;> omega
  rw [hperm.length_eq, List.length_append]
  show 3 + _ ≤ _
  omega

/-- One program runs: scinit has its two read ends open. -/
theorem descriptors_counted_calledOnce : ((exec (step bareHost) (boot bareHost [plain 'p' "simple" [] []])
    calledOnce).get calledOnce_possible).kernel.fds.Perm [0, 1, 2, 4, 3, 12, 10] := by
  obtain ⟨-, hperm, -⟩ := descriptors_counted (Run.of_isSome calledOnce_possible) (by decide)
  have hleft : ((trace (step bareHost) (boot bareHost [plain 'p' "simple" [] []]) calledOnce).flatMap fun e =>
      leftOpen bareHost e.1 e.2) = [4, 3, 12, 10] := by decide
  rw [hleft] at hperm
  exact hperm

end Scinit
