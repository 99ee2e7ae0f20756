/-
# The count of the running children

`number_of_running_procs` is raised by a start attempt that gets to its end and
lowered when a child of the pid table is reaped. A `fork` that fails is not
noticed: nothing looks at its result, the pid -1 is registered, and the count is
raised for a child that does not exist. Nothing ever takes it back, so the
count is the number of children plus the number of those forks, in every run.

Key definitions: `LostFork`.
Key theorems: `counter_eq`, `size_le_counter`, `counter_iff`.
-/
import Scinit.Lifecycle

namespace Scinit

open Transition

variable {H : Host} {progs : List Program} {base : Objs} {tr : List (Sys × Label)} {s s' : Sys} {l : Label}

/-- A start attempt gets to its `fork`, the fork fails, and both `epoll_ctl` succeed. -/
def LostFork (H : Host) (s : Sys) (l : Label) : Prop :=
  ∃ c site ref todo p, l = .start c ∧ s.pc = .starting site (ref :: todo) ∧ s.objs[ref]? = some p ∧
    p.state = .ready ∧ p.name ∉ s.loggers ∧ ReachesFork H c p ∧
    c.fork = none ∧ c.epollOut = true ∧ c.epollErr = true

theorem size_forked {k : Kernel} {c : StartCalls} (hk : k.MayStart c) (out err : ℤ × ℤ) (child : Child) :
    (k.forked c out err child).children.size =
      k.children.size + if c.fork.isSome then 1 else 0 := by
  rw [Kernel.forked_children]
  cases hf : c.fork with
  | none => rfl
  | some pid =>
    have hnot : ¬ k.children.contains pid = true := by
      rw [Std.ExtTreeMap.contains_eq_isSome_getElem?, (hk.2.2 pid hf).2]
      exact Bool.false_ne_true
    simp [Std.ExtTreeMap.size_insert, hnot]

theorem size_reap {k : Kernel} {pid : ℤ} {c : Child} (hc : k.children[pid]? = some c) :
    (k.reap pid).children.size + 1 = k.children.size := by
  have hin : k.children.contains pid = true := by
    rw [Std.ExtTreeMap.contains_eq_isSome_getElem?, hc]
    rfl
  have hpos : k.children.size ≠ 0 := fun h => by
    have := Std.ExtTreeMap.eq_empty_iff_size_eq_zero.mpr h
    rw [this] at hc
    simp at hc
  simp only [Kernel.reap, Std.ExtTreeMap.size_erase, hin, if_true]
  omega

/-- What the count is off by. -/
def surplus (s : Sys) : ℤ := s.handler.numberOfRunningProcs - s.kernel.children.size

/-- An attempt that gets to its fork loses it if the fork fails. -/
theorem lostFork_iff {c : StartCalls} {site : Site} {ref : Ref} {todo : List Ref} {p : ChildProcess}
    (hpc : s.pc = .starting site (ref :: todo)) (hp : s.objs[ref]? = some p) (hr : p.state = .ready)
    (hn : p.name ∉ s.loggers) (hreach : ReachesFork H c p) (hout : c.epollOut = true) (herr : c.epollErr = true) :
    LostFork H s (.start c) ↔ c.fork = none := by
  constructor
  · rintro ⟨c', _, _, _, _, hc, _, _, _, _, _, hf, -⟩
    cases hc
    exact hf
  · exact fun hf => ⟨c, site, ref, todo, p, rfl, hpc, hp, hr, hn, hreach, hf, hout, herr⟩

/-- A fork is counted, and there is a child if it did not fail. -/
theorem surplus_forked {c : StartCalls} (hk : s.kernel.MayStart c) (ref : Ref) (p : ChildProcess) (out err : ℤ × ℤ)
    (b b' : PtyName) (environment : List Text) (pc : Pc) :
    surplus { (s.forked c ref p out err b b' environment).registered p.graphId out.1 err.1 with pc := pc } =
      surplus s + if c.fork = none then 1 else 0 := by
  have hsize := size_forked hk out err (childOf ref p out err environment)
  show s.handler.numberOfRunningProcs + 1 -
    ((s.kernel.forked c out err (childOf ref p out err environment)).children.size : ℤ) = _
  rw [hsize]
  by_cases hf : c.fork = none
  · rw [if_pos hf, hf]
    simp only [surplus, Option.isSome_none, Bool.false_eq_true, if_false]
    push_cast
    omega
  · rw [if_neg hf, if_pos (Option.isSome_iff_ne_none.mpr hf)]
    simp only [surplus]
    push_cast
    omega

open Classical in
/-- A step raises the surplus by one if it loses a fork, and not otherwise. -/
theorem surplus_step (he : Effect H s l s') (ht : s'.pc.isThrown = false) :
    surplus s' = surplus s + if LostFork H s l then 1 else 0 := by
  have hsame : (∀ c, l ≠ .start c) → surplus s' = surplus s →
      surplus s' = surplus s + if LostFork H s l then 1 else 0 := fun hl h => by
    have hno : ¬ LostFork H s l := by
      rintro ⟨c, -, -, -, -, hc, -⟩
      exact hl c hc
    rw [if_neg hno, h, add_zero]
  cases he with
  | setup | setupFailed | notify | started | epollWait | reaped | output | hungUp | eventFailed
  | exitTest | reapUnknown => exact hsame (fun _ h => by cases h) rfl
  | skipped hpc hskip =>
    rw [if_neg]
    · exact (add_zero _).symm
    · rintro ⟨c, site, ref, todo, p, hc, hpc', hp, hr, hn, -⟩
      rw [hpc] at hpc'
      cases hpc'
      exact hn (hskip p hp hr)
  | threw hpc hp hr hn hk hpc' hexn =>
    rw [if_neg]
    · simp [surplus, hk.children]
    · rintro ⟨c, site, ref, todo, p, hc, hpc', hp', hr', hn', hreach, -⟩
      cases hc
      rw [hpc] at hpc'
      cases hpc'
      rw [hp] at hp'
      cases hp'
      exact hexn ((doFork_exn_iff _ hr _).mpr hreach)
  | unregistered => cases ht
  | @forked c site ref todo p out err b b' environment hpc hp hr hn hk h1 h2 hexn h3 h4 h5 =>
    have hlost := lostFork_iff hpc hp hr hn ((doFork_exn_iff _ hr _).mp hexn) h3 h4
    rw [surplus_forked hk, if_congr hlost rfl rfl]
  | reap hpc hc hst =>
    refine hsame (fun _ h => by cases h) ?_
    have := size_reap hc
    simp only [surplus, Sys.reaped]
    omega
  | @signalled c e batch n =>
    refine hsame (fun _ h => by cases h) ?_
    obtain ⟨k, q, hk, he⟩ := signalReceived_eq n
      { s with kernel := { s.kernel with pending := s.kernel.pending.erase n } }
    rw [he]
    simp only [surplus, hk.size]
  | act _ ha =>
    refine hsame (fun _ h => by cases h) ?_
    simp only [surplus, (Kernel.acted ha).size]
  | signal =>
    refine hsame (fun _ h => by cases h) ?_
    simp only [surplus, deliver_handler, deliver_children]

open Classical in
/-- The count is the number of children and of lost forks. -/
theorem counter_eq (h : Runs H progs tr s) (ht : s.pc.isThrown = false) :
    s.handler.numberOfRunningProcs =
      s.kernel.children.size + (tr.countP fun e => decide (LostFork H e.1 e.2) : ℕ) := by
  suffices surplus s = (tr.countP fun e => decide (LostFork H e.1 e.2) : ℕ) by
    unfold surplus at this
    omega
  induction h with
  | refl =>
    obtain ⟨-, -, -, -, -, hnum, -⟩ := boot_tables H progs
    simp [surplus, hnum, boot_kernel]
  | @snoc tr s s' l h hs ih =>
    obtain ⟨-, -, he⟩ := run_effect h hs
    rw [surplus_step he ht, ih (not_thrown_of_step hs), List.countP_append, List.countP_singleton]
    simp

/-- No more children than the count says. -/
theorem size_le_counter (h : Runs H progs tr s) (ht : s.pc.isThrown = false) :
    (s.kernel.children.size : ℤ) ≤ s.handler.numberOfRunningProcs := by
  rw [counter_eq h ht]
  omega

/-- After a fork, a start attempt throws exactly if an `epoll_ctl` fails. -/
theorem epoll_of_forkOf {c : StartCalls} (he : Effect H s (.start c) s') {r : Ref}
    (hf : forkOf H s (.start c) = some r) :
    s'.pc.isThrown = false ↔ c.epollOut = true ∧ c.epollErr = true := by
  obtain ⟨c', site, todo, p, hc, hpc, hp, hr, hn, hexn⟩ := forkOf_eq_some hf
  cases hc
  cases he with
  | skipped hpc' hskip =>
    rw [hpc] at hpc'
    cases hpc'
    exact absurd (hskip p hp hr) hn
  | threw hpc' hp' _ _ _ _ hexn' =>
    rw [hpc] at hpc'
    cases hpc'
    rw [hp] at hp'
    cases hp'
    exact absurd hexn hexn'
  | unregistered _ _ _ _ _ _ _ _ h =>
    refine ⟨fun ht => (by cases ht), fun hok => ?_⟩
    rcases h with h | h
    · rw [hok.1] at h
      cases h
    · rw [hok.2] at h
      cases h
  | forked _ _ _ _ _ _ _ _ h1 h2 => exact ⟨fun _ => ⟨h1, h2⟩, fun _ => rfl⟩

/-- A fork that throws nothing registers the descriptors of the process. -/
theorem forked_of_forkOf (he : Effect H s l s') (ht : s'.pc.isThrown = false) {r : Ref}
    (hf : forkOf H s l = some r) : ∃ c site todo p out err b b' environment, l = .start c ∧
      s.pc = .starting site (r :: todo) ∧ s.objs[r]? = some p ∧ p.name ∉ s.loggers ∧ s.kernel.MayStart c ∧
      c.out = some out ∧ c.err = some err ∧ handleEnv H (p.withStdio out err b b') = .ok environment ∧
      s' = { (s.forked c r p out err b b' environment).registered p.graphId out.1 err.1 with
        pc := .starting site todo } := by
  obtain ⟨c, site, todo, p, rfl, hpc, hp, hr, hn, hexn⟩ := forkOf_eq_some hf
  cases he with
  | skipped hpc' hskip =>
    rw [hpc] at hpc'
    cases hpc'
    exact absurd (hskip p hp hr) hn
  | threw hpc' hp' _ _ _ _ hexn' =>
    rw [hpc] at hpc'
    cases hpc'
    rw [hp] at hp'
    cases hp'
    exact absurd hexn hexn'
  | unregistered => cases ht
  | forked hpc' hp' _ _ hk hout herr _ _ _ henv =>
    rw [hpc] at hpc'
    cases hpc'
    rw [hp] at hp'
    cases hp'
    exact ⟨c, site, todo, p, _, _, _, _, _, rfl, hpc, hp, hn, hk, hout, herr, henv, rfl⟩

theorem LostFork.forkOf (hl : LostFork H s l) : ∃ c r, l = .start c ∧ forkOf H s (.start c) = some r ∧
    c.fork = none ∧ c.epollOut = true ∧ c.epollErr = true := by
  obtain ⟨c, site, ref, todo, p, rfl, hpc, hp, hr, hn, hreach, hf, h1, h2⟩ := hl
  exact ⟨c, ref, rfl, by rw [forkOf_start hpc hp, if_pos ⟨hr, hn, (doFork_exn_iff _ hr _).mpr hreach⟩],
    hf, h1, h2⟩

/-- A fork that fails is lost, or an exception ends scinit. -/
theorem lostFork_of_fork {c : StartCalls} (he : Effect H s (.start c) s') (ht : s'.pc.isThrown = false)
    {r : Ref} (hf : Scinit.forkOf H s (.start c) = some r) (hnone : c.fork = none) :
    LostFork H s (.start c) := by
  obtain ⟨h1, h2⟩ := (epoll_of_forkOf he hf).mp ht
  obtain ⟨c', site, todo, p, hc, hpc, hp, hr, hn, hexn⟩ := forkOf_eq_some hf
  cases hc
  exact ⟨c, site, r, todo, p, rfl, hpc, hp, hr, hn, (doFork_exn_iff _ hr _).mp hexn, hnone, h1, h2⟩

/-- **The count is right** in every state of a run, up to an exception that ends
scinit, exactly if no `fork` of the run is lost. -/
theorem counter_iff (h : Runs H progs tr s) :
    (∀ t ∈ visited tr s, t.pc.isThrown = false →
      t.handler.numberOfRunningProcs = t.kernel.children.size ∧ 0 ≤ t.handler.numberOfRunningProcs) ↔
    ∀ t l, (t, l) ∈ tr → ¬ LostFork H t l := by
  classical
  constructor
  · intro hgood t l hm hlost
    obtain ⟨pre, post, t', rfl, hpre, hs, hpost⟩ := h.step_of_mem hm
    obtain ⟨-, -, he⟩ := run_effect hpre hs
    have ht : t'.pc.isThrown = false := by
      obtain ⟨c, r, rfl, hf, -, h1, h2⟩ := hlost.forkOf
      exact (epoll_of_forkOf he hf).mpr ⟨h1, h2⟩
    have hvis : t' ∈ visited (pre ++ (t, l) :: post) s := by
      rw [visited_append, List.mem_append]
      exact Or.inr (List.mem_cons_of_mem _ hpost.start_mem_visited)
    have hc := counter_eq (hpre.snoc hs) ht
    rw [List.countP_append, List.countP_singleton, if_pos (by simpa using hlost)] at hc
    have := (hgood t' hvis ht).1
    omega
  · intro hno t hvis ht
    obtain ⟨pre, post, rfl, hpre, -⟩ := h.prefix_of_visited hvis
    have hc := counter_eq hpre ht
    have h0 : (pre.countP fun e => decide (LostFork H e.1 e.2)) = 0 :=
      List.countP_eq_zero.mpr fun e he => by
        simpa using hno e.1 e.2 (List.mem_append_left _ he)
    rw [h0] at hc
    omega

/-- Every fork succeeds. -/
def Label.forkOk : Label → Bool
  | .start c => c.fork.isSome
  | _ => true

theorem oneShot_possible :
    (exec (step bareHost) (boot bareHost [plain 'p' "simple" [] []]) (oneShot 0)).isSome = true := by decide

theorem counter_iff_oneShot :
    ((exec (step bareHost) (boot bareHost [plain 'p' "simple" [] []]) (oneShot 0)).get
      oneShot_possible).handler.numberOfRunningProcs =
    ((exec (step bareHost) (boot bareHost [plain 'p' "simple" [] []]) (oneShot 0)).get
      oneShot_possible).kernel.children.size := by
  refine ((counter_iff (Run.of_isSome oneShot_possible)).mpr (fun t l hm hlost => ?_) _
    (self_mem_visited _ _) (by decide)).1
  obtain ⟨c, -, -, -, -, rfl, -, -, -, -, -, hf, -⟩ := hlost
  have hall : ∀ e ∈ trace (step bareHost) (boot bareHost [plain 'p' "simple" [] []]) (oneShot 0),
      e.2.forkOk = true := by decide
  have := hall _ hm
  simp [Label.forkOk, hf] at this

/-- The only start attempt's `fork` fails. -/
def failedFork : List Label :=
  [.setup setupOk, .notify, .start { startOk 10 100 with fork := none }, .started]

theorem failedFork_possible :
    (exec (step bareHost) (boot bareHost [plain 'p' "simple" [] []]) failedFork).isSome = true := by decide

theorem counter_failedFork : ¬ ∀ (H : Host) (progs : List Program) (tr : List (Sys × Label)) (s : Sys),
    Runs H progs tr s → s.pc.isThrown = false →
      s.handler.numberOfRunningProcs = s.kernel.children.size ∧ 0 ≤ s.handler.numberOfRunningProcs := by
  intro h
  have := h _ _ _ _ (Run.of_isSome failedFork_possible) (by decide)
  revert this
  decide

end Scinit
