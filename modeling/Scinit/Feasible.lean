/-
# What can be run in full

Whether every program of a configuration can run and end well follows from its
entries: there is a run in which every program is done if and only if no start or
finish comes before itself (`feasible_iff`). The way there is built round by round,
of steps in which nothing goes wrong (`Smooth`).
Whenever something is left, one moment is next: a process that is held back has what
it awaits, and the next call starts it, or one that runs is needed by nothing any
more, and exits. scinit does not check any of this, and it takes no cycle of programs
for a configuration to fail it.

Key definitions: `OnCourse`, `Starts`, `Further`.
Key theorems: `onCourse_call`, `onCourse_finish`, `exists_next_process`, `further_event`, `further_round`,
`feasible_iff`.
-/
import Scinit.Moments
import Scinit.Progress

namespace Scinit

open Transition

variable {H : Host} {progs : List Program} {tr : List (Sys × Label)} {s s' : Sys} {l : Label} {r : Ref}
  {i : Fin progs.length}

/-- Nothing stands in the way of every program: each name can have a logger of its own, each
environment can be set up, and no start or finish comes before itself. -/
structure Feasible (H : Host) (progs : List Program) : Prop where
  names : ("scinit".toList :: progs.map Program.name).Nodup
  environments : ∀ r g, progs[r]? = some g → ∃ environment, handleEnv H (ChildProcess.new H g r) = .ok environment
  acyclic : ∀ m, ¬ Relation.TransGen (Before progs) m m

/-! ### A run to the end -/

/-- So far everything has gone well: what is left can still be started, and nothing was
finished that another process still needs running. -/
structure OnCourse (H : Host) (progs : List Program) (s : Sys) : Prop where
  reached : Smoothly H (boot H progs) s
  quit : s.handler.shouldQuit = false
  tended : ∀ r, s.stateOf r = some .running →
    ∃ (pid : ℤ) (ch : Child), s.kernel.children[pid]? = some ch ∧ ch.owner = r ∧ ch.status = none
  unlogged : ∀ r g, progs[r]? = some g → s.stateOf r = some .blocked ∨ s.stateOf r = some .ready → g.name ∉ s.loggers
  uncrashed : ∀ r, s.stateOf r ≠ some .crashed
  ordered : ∀ r q, AwaitsIn progs .running r q → s.stateOf q = some .done → s.stateOf r ≠ some .blocked

theorem OnCourse.run (h : OnCourse H progs s) : ∃ tr, Runs H progs tr s := by
  obtain ⟨tr, hrun, -⟩ := h.reached
  exact ⟨tr, hrun⟩

/-- At the start everything is still to come. -/
theorem onCourse_boot (hf : Feasible H progs) : OnCourse H progs (boot H progs) := by
  obtain ⟨-, -, -, -, -, -, hquit⟩ := boot_tables H progs
  have hst : ∀ {r : Ref} {st : ProcessState}, (boot H progs).stateOf r = some st → st = .blocked ∨ st = .ready := by
    intro r st h
    obtain ⟨p, hp, rfl⟩ := Sys.stateOf_eq_some.mp h
    exact (boot_wellFormed H progs).state r p hp
  refine ⟨.refl, hquit, fun r h => ?_, fun r g hg _ hmem => ?_, fun r h => ?_, fun r q _ h => ?_⟩
  · rcases hst h with h | h <;> cases h
  · have hname : g.name = "scinit".toList := List.mem_singleton.mp hmem
    exact (List.nodup_cons.mp hf.names).1 (hname ▸ List.mem_map_of_mem (List.mem_of_getElem? hg))
  · rcases hst h with h | h <;> cases h
  · rcases hst h with h | h <;> cases h

/-- What is released stays so. -/
theorem not_blocked_step (h : Runs H progs tr s) (hs : step H s l = some s') (hr : s.stateOf r ≠ some .blocked) :
    s'.stateOf r ≠ some .blocked := by
  rcases stateOf_step h hs r with h | ⟨-, h, -⟩ | ⟨-, -, h⟩ | ⟨-, -, h | h⟩
  · rwa [h]
  · exact absurd h hr
  all_goals
    rw [h]
    decide

/-- A step that does not end anything goes on, if what it starts is tended and its name was free. -/
theorem OnCourse.goesOn (h : OnCourse H progs s) (hs : step H s l = some s') (hsm : Smooth s l)
    (hl : ∀ pid rc, l ≠ .reap pid rc) (hquit : s'.handler.shouldQuit = s.handler.shouldQuit)
    (htended : ∀ r, s'.stateOf r = some .running →
      ∃ (pid : ℤ) (ch : Child), s'.kernel.children[pid]? = some ch ∧ ch.owner = r ∧ ch.status = none)
    (hunlogged : ∀ r g, progs[r]? = some g → s'.stateOf r = some .blocked ∨ s'.stateOf r = some .ready →
      g.name ∉ s'.loggers) : OnCourse H progs s' := by
  obtain ⟨tr, hrun⟩ := h.run
  have hended : ∀ {r : Ref} {st : ProcessState}, st = .done ∨ st = .crashed → s'.stateOf r = some st →
      s.stateOf r = some st := fun {r st} hst hr => by
    rcases stateOf_step hrun hs r with h | ⟨-, -, h, -⟩ | ⟨-, -, h⟩ | ⟨⟨pid, rc, h⟩, -⟩
    · exact h.symm.trans hr
    · rw [hr, Option.some.injEq] at h
      rcases hst with rfl | rfl <;> cases h
    · rw [hr, Option.some.injEq] at h
      rcases hst with rfl | rfl <;> cases h
    · exact absurd h (hl pid rc)
  exact {
    reached := h.reached.trans (.single hs hsm)
    quit := hquit.trans h.quit
    tended := htended
    unlogged := hunlogged
    uncrashed := fun r hr => h.uncrashed r (hended (Or.inr rfl) hr)
    ordered := fun r q hrq hq => not_blocked_step hrun hs (h.ordered r q hrq (hended (Or.inl rfl) hq)) }

/-- A step that changes nothing of all this. -/
theorem OnCourse.kept (h : OnCourse H progs s) (hs : step H s l = some s') (hsm : Smooth s l)
    (hl : ∀ pid rc, l ≠ .reap pid rc) (hquit : s'.handler.shouldQuit = s.handler.shouldQuit)
    (hobjs : s'.objs = s.objs) (hlog : s'.loggers = s.loggers)
    (hch : s'.kernel.children = s.kernel.children) : OnCourse H progs s' := by
  have hst : ∀ r, s'.stateOf r = s.stateOf r := fun r => congrArg (fun objs : Objs => objs[r]?.map _) hobjs
  refine h.goesOn hs hsm hl hquit (fun r hr => ?_) fun r g hg hr => ?_
  · rw [hch]
    exact h.tended r ((hst r).symm.trans hr)
  · rw [hlog]
    exact h.unlogged r g hg (hst r ▸ hr)

/-- Processes that were ready are started, and nothing else changes. -/
def Starts (s s' : Sys) : Prop :=
  ∀ r, s'.stateOf r = s.stateOf r ∨ (s.stateOf r = some .ready ∧ s'.stateOf r = some .running)

theorem Starts.trans {t : Sys} (h : Starts s t) (h' : Starts t s') : Starts s s' := by
  intro r
  rcases h r with he | ⟨hready, hrun⟩ <;> rcases h' r with he' | ⟨hready', hrun'⟩
  · exact Or.inl (he'.trans he)
  · exact Or.inr ⟨he.symm.trans hready', hrun'⟩
  · exact Or.inr ⟨hready, he'.trans hrun⟩
  · rw [hrun] at hready'
    cases hready'

theorem Starts.ready (h : Starts s s') (hr : s'.stateOf r = some .ready) : s.stateOf r = some .ready := by
  rcases h r with he | ⟨hready, -⟩
  · exact he.symm.trans hr
  · exact hready

theorem starts_of_turn {c : StartCalls} (h : Runs H progs tr s) (hs : step H s (.start c) = some s') : Starts s s' := by
  intro r
  rcases stateOf_step h hs r with he | ⟨hl, -⟩ | ⟨-, hstart⟩ | ⟨⟨_, _, hl⟩, -⟩
  · exact Or.inl he
  · cases hl
  · exact Or.inr hstart
  · cases hl

/-! ### A call of start_programs -/

section

variable {site : Site} {todo : List Ref}

/-- The notifications release every process that has what it awaits. -/
theorem onCourse_notify (h : OnCourse H progs s) (hpc : s.pc = .notify site) : ∃ s', OnCourse H progs s' ∧
    s'.pc = .starting site (List.range progs.length) ∧
    (∀ r, s'.stateOf r = s.stateOf r ∨ (s.stateOf r = some .blocked ∧ s'.stateOf r = some .ready)) ∧
    ∀ r, s.stateOf r = some .blocked → (∀ st q, AwaitsIn progs st r q → s.stateOf q = some st) →
      s'.stateOf r = some .ready := by
  obtain ⟨tr, hrun⟩ := h.run
  have hs : step H s .notify = some { notifyAll s with pc := .starting site s.handler.allObjs } := by
    simp only [step, hpc]
  have hmoves : ∀ r, Sys.stateOf { notifyAll s with pc := .starting site s.handler.allObjs } r = s.stateOf r ∨
      (s.stateOf r = some .blocked ∧
        Sys.stateOf { notifyAll s with pc := .starting site s.handler.allObjs } r = some .ready) := fun r => by
    rcases stateOf_step hrun hs r with he | ⟨-, hb, hready, -⟩ | ⟨hf, -⟩ | ⟨⟨_, _, hl⟩, -⟩
    · exact Or.inl he
    · exact Or.inr ⟨hb, hready⟩
    · cases hf
    · cases hl
  have hi := run_ids hrun
  have hw := boot_wellFormed H progs
  refine ⟨_, h.goesOn hs trivial (fun _ _ hl => by cases hl) rfl (fun r hr => ?_) (fun r g hg hr => ?_), ?_, hmoves,
    fun r hr hheld => ?_⟩
  · rcases hmoves r with he | ⟨-, he⟩
    · exact h.tended r (he.symm.trans hr)
    · rw [hr] at he
      cases he
  · rcases hmoves r with he | ⟨hb, -⟩
    · exact h.unlogged r g hg (he ▸ hr)
    · exact h.unlogged r g hg (Or.inl hb)
  · show Pc.starting site s.handler.allObjs = _
    rw [hi.allObjs, boot_length]
  · obtain ⟨p, hp, hb⟩ := Sys.stateOf_eq_some.mp hr
    obtain ⟨p₀, hp₀, hfix⟩ := hi.get hp
    have hb₀ := not_blocked_stays hrun hp₀ hp hb
    have hmet : met s.objs s.handler.objForId p := (met_iff hw hi hp).mpr fun c hc =>
      hheld c.2 c.1 (awaitsIn_of_condition hp₀ hb₀ (ChildProcess.conditions_of_fixed hfix ▸ hc))
    show (notifyAll s).stateOf r = _
    rw [notified_stateOf hw hi hp, if_pos ⟨hb, hmet⟩]

/-- An attempt whose calls succeed throws nothing, if the environment can be set up. -/
theorem reachesFork_attemptOk {fd pid : ℤ} {p : ChildProcess} {environment : List Text}
    (henv : handleEnv H p = .ok environment) : ReachesFork H (attemptOk fd pid) p :=
  ⟨⟨(fd, fd + 1), rfl, fun _ => rfl⟩, rfl, environment, henv⟩

/-- A process is started, and its child is there. -/
theorem OnCourse.forked (h : OnCourse H progs s) (hf : Feasible H progs)
    {c : StartCalls} (hs : step H s (.start c) = some s') (hsm : Smooth s (.start c)) {p p' : ChildProcess}
    (hp : s.objs[r]? = some p) {pid : ℤ}
    {ch : Child} (hfree : s.kernel.children[pid]? = none) (howner : ch.owner = r) (hstatus : ch.status = none)
    (hobjs : s'.objs = s.objs.set r p') (hrun : p'.state = .running) (hlog : s'.loggers = s.loggers ++ [p.name])
    (hch : ∀ pid', s'.kernel.children[pid']? = if pid' = pid then some ch else s.kernel.children[pid']?)
    (hquit : s'.handler.shouldQuit = s.handler.shouldQuit) : OnCourse H progs s' ∧ s'.stateOf r = some .running := by
  obtain ⟨tr, hreach⟩ := h.run
  have hself : s'.stateOf r = some .running := by
    rw [Sys.stateOf, hobjs, List.getElem?_set_self (List.getElem?_eq_some_iff.mp hp).1, Option.map_some, hrun]
  have hother : ∀ q, q ≠ r → s'.stateOf q = s.stateOf q := fun q hq => by
    rw [Sys.stateOf, hobjs, List.getElem?_set_ne (Ne.symm hq), Sys.stateOf]
  refine ⟨h.goesOn hs hsm (fun _ _ hl => by cases hl) hquit (fun q hq => ?_) fun q g hg hq => ?_, hself⟩
  · by_cases hqr : q = r
    · exact ⟨pid, ch, by rw [hch, if_pos rfl], howner.trans hqr.symm, hstatus⟩
    · obtain ⟨pid', ch', hc', ho', hst'⟩ := h.tended q ((hother q hqr).symm.trans hq)
      have hne : pid' ≠ pid := fun heq => by
        rw [heq, hfree] at hc'
        cases hc'
      exact ⟨pid', ch', by rw [hch, if_neg hne, hc'], ho', hst'⟩
  · have hqr : q ≠ r := fun heq => by
      rw [heq, hself] at hq
      rcases hq with hq | hq <;> cases hq
    rw [hother q hqr] at hq
    rw [hlog, List.mem_append, List.mem_singleton, not_or]
    refine ⟨h.unlogged q g hg hq, fun heq => hqr ?_⟩
    -- their names differ, as they are different entries
    obtain ⟨g', hg'⟩ : ∃ g', progs[r]? = some g' := ⟨_, List.getElem?_eq_getElem (run_lt hreach hp)⟩
    have hnodup := (List.nodup_cons.mp hf.names).2
    have hlt : q < (progs.map Program.name).length := by
      rw [List.length_map]
      exact (List.getElem?_eq_some_iff.mp hg).1
    refine (List.getElem?_inj hlt hnodup).mp ?_
    rw [List.getElem?_map, List.getElem?_map, hg, hg', Option.map_some, Option.map_some, heq,
      name_of_entry hreach hp hg']

/-- The turn of a process that is ready starts it. -/
theorem onCourse_turn (hf : Feasible H progs) (h : OnCourse H progs s) (hpc : s.pc = .starting site (r :: todo)) :
    ∃ s', OnCourse H progs s' ∧ Starts s s' ∧ s'.pc = .starting site todo ∧ s'.stateOf r ≠ some .ready := by
  obtain ⟨tr, hrun⟩ := h.run
  obtain ⟨fd, pid, hk⟩ := exists_mayStart s.kernel
  obtain ⟨s', hs⟩ : ∃ s', step H s (.start (attemptOk fd pid)) = some s' := by
    simp only [step, hpc, hk, if_true, Option.some.injEq, exists_eq']
  obtain ⟨hi, -, he⟩ := run_effect hrun hs
  have hstarts := starts_of_turn hrun hs
  have hsm : Smooth s (.start (attemptOk fd pid)) := ⟨rfl, rfl, rfl, rfl, rfl, fun _ => rfl⟩
  cases he with
  | @skipped _ _ _ _ hpc' hskip =>
    rw [hpc] at hpc'
    cases hpc'
    refine ⟨_, h.kept hs hsm (fun _ _ hl => by cases hl) rfl rfl rfl rfl, hstarts, rfl, fun hready => ?_⟩
    have hready : s.stateOf r = some .ready := hready
    obtain ⟨p, hp, hr⟩ := Sys.stateOf_eq_some.mp hready
    obtain ⟨g, hg⟩ : ∃ g, progs[r]? = some g := ⟨_, List.getElem?_eq_getElem (run_lt hrun hp)⟩
    exact h.unlogged r g hg (Or.inr hready) (name_of_entry hrun hp hg ▸ hskip p hp hr)
  | threw hpc' hp hr hn _ _ hexn =>
    obtain ⟨g, hg, -, -, heq, -⟩ := entry_of_object hrun hp
    obtain ⟨environment, henv⟩ := hf.environments _ g hg
    exact absurd ((doFork_exn_iff _ hr _).mpr (reachesFork_attemptOk (heq.trans henv))) hexn
  | unregistered _ _ _ _ _ _ _ _ hreg => rcases hreg with hreg | hreg <;> cases hreg
  | @forked _ site' r' todo' p out err b b' environment hpc' hp hr hn hk' hout herr =>
    rw [hpc] at hpc'
    cases hpc'
    have hch : ∀ pid', (s.kernel.forked (attemptOk fd pid) out err (childOf r p out err environment)).children[pid']? =
        if pid' = pid then some (childOf r p out err environment) else s.kernel.children[pid']? := fun pid' => by
      rw [Kernel.forked_child]
      exact if_congr ⟨fun heq => (Option.some.inj heq).symm, fun heq => congrArg some heq.symm⟩ rfl rfl
    obtain ⟨hcourse, hrunning⟩ := h.forked hf hs hsm hp (hk.2.2 pid rfl).2 rfl rfl rfl rfl rfl hch rfl
    refine ⟨_, hcourse, hstarts, rfl, fun hready => ?_⟩
    rw [hrunning] at hready
    cases hready

theorem onCourse_turns (hf : Feasible H progs) :
    ∀ (todo : List Ref) {s : Sys}, OnCourse H progs s → s.pc = .starting site todo → ∃ s', OnCourse H progs s' ∧
      Starts s s' ∧ s'.pc = .starting site [] ∧ ∀ r ∈ todo, s'.stateOf r ≠ some .ready
  | [], s, h, hpc => ⟨s, h, fun _ => Or.inl rfl, hpc, List.forall_mem_nil _⟩
  | r :: todo, s, h, hpc => by
    obtain ⟨m, hm, hsm, hpcm, hr⟩ := onCourse_turn hf h hpc
    obtain ⟨s', hs', hms', hpc', htodo⟩ := onCourse_turns hf todo hm hpcm
    refine ⟨s', hs', hsm.trans hms', hpc', List.forall_mem_cons.mpr ⟨fun hready => ?_, htodo⟩⟩
    exact hr (hms'.ready hready)

/-- **A call** starts every process that has what it awaits, and leaves none that could be started. -/
theorem onCourse_call (hf : Feasible H progs) (h : OnCourse H progs s) (hpc : s.pc = .notify site) :
    ∃ s', OnCourse H progs s' ∧ s'.pc = afterStart site s' ∧ (∀ r, s'.stateOf r ≠ some .ready) ∧
      (∀ r, s'.stateOf r = s.stateOf r ∨ (s.stateOf r ≠ some .done ∧ s'.stateOf r = some .running)) ∧
      ∀ r, s.stateOf r = some .blocked → (∀ st q, AwaitsIn progs st r q → s.stateOf q = some st) →
        s'.stateOf r = some .running := by
  obtain ⟨t, ht, hpct, hmoves, hreleased⟩ := onCourse_notify h hpc
  obtain ⟨u, hu, hstarts, hpcu, hturned⟩ := onCourse_turns hf _ ht hpct
  obtain ⟨tr, hrun⟩ := hu.run
  have hs : step H u .started = some { u with pc := afterStart site u } := by
    simp only [step, hpcu]
  have hready : ∀ r, u.stateOf r ≠ some .ready := fun r hr => by
    obtain ⟨p, hp, -⟩ := Sys.stateOf_eq_some.mp hr
    exact hturned r (List.mem_range.mpr (run_lt hrun hp)) hr
  refine ⟨_, hu.kept hs trivial (fun _ _ hl => by cases hl) rfl rfl rfl rfl, ?_, hready, fun r => ?_,
    fun r hb hheld => ?_⟩
  · cases site <;> rfl
  · rcases hstarts r with he | ⟨hr, hrunning⟩
    · rcases hmoves r with he' | ⟨-, hr⟩
      · exact Or.inl (he.trans he')
      · exact absurd (he.trans hr) (hready r)
    · refine Or.inr ⟨fun hd => ?_, hrunning⟩
      rcases hmoves r with he | ⟨hb, -⟩
      · rw [he, hd] at hr
        cases hr
      · rw [hd] at hb
        cases hb
  · rcases hstarts r with he | ⟨-, hrunning⟩
    · exact absurd (he.trans (hreleased r hb hheld)) (hready r)
    · exact hrunning

end

/-! ### A round -/

/-- A child exits with 0 and is reaped: its process is done, and nothing else changes. -/
theorem exists_reap {batch : List Event} (h : Runs H progs tr s) (hpc : s.pc = .reaping batch) {pid : ℤ} {ch : Child}
    (hc : s.kernel.children[pid]? = some ch) (hst : ch.status = none) (hi : s.stateOf ch.owner = some .running) :
    ∃ s', Smoothly H s s' ∧ s'.pc = .reaping batch ∧ s'.handler.shouldQuit = s.handler.shouldQuit ∧
      s'.loggers = s.loggers ∧ s'.stateOf ch.owner = some .done ∧ (∀ r, r ≠ ch.owner → s'.stateOf r = s.stateOf r) ∧
      ∀ pid', pid' ≠ pid → s'.kernel.children[pid']? = s.kernel.children[pid']? := by
  obtain ⟨k, hk, hget⟩ := act_exit hc hst
  have hs : step H s (.act (.exit pid 0)) = some { s with kernel := k } := by
    simp only [step, hpc, Pc.ended, Bool.false_eq_true, if_false, hk, Option.map_some]
  have hrun := h.snoc hs
  have hc' := (hget pid).trans (if_pos rfl)
  have hreap : k.MayReap pid 0 := ⟨((run_ids hrun).child pid _ hc').1, Or.inl (by rw [hc', Option.map_some])⟩
  obtain ⟨s', hs'⟩ : ∃ s', step H { s with kernel := k } (.reap pid 0) = some s' := by
    simp only [step, hpc, hreap, if_true, Option.some.injEq, exists_eq']
  obtain ⟨-, -, he⟩ := run_effect hrun hs'
  cases he with
  | reapUnknown _ hnone =>
    rw [hc'] at hnone
    cases hnone
  | reap _ hc'' =>
    obtain rfl := Option.some.inj (hc'.symm.trans hc'')
    obtain ⟨p, hp, -⟩ := Sys.stateOf_eq_some.mp hi
    have hobjs : (Sys.reaped { s with kernel := k } pid 0 ch.owner).objs =
        s.objs.set ch.owner (p.handleProcessEvent .exit 0) := Sys.reaped_objs hp pid 0
    refine ⟨_, .trans (.single hs trivial) (.single hs' trivial), hpc, rfl, rfl, ?_, fun r hr => ?_, fun pid' hne => ?_⟩
    · rw [Sys.stateOf, hobjs, List.getElem?_set_self (List.getElem?_eq_some_iff.mp hp).1]
      rfl
    · rw [Sys.stateOf, hobjs, List.getElem?_set_ne (Ne.symm hr), Sys.stateOf]
    · show (k.children.erase pid)[pid']? = _
      rw [Std.ExtTreeMap.getElem?_erase, if_neg (by simpa using Ne.symm hne), hget, if_neg hne]

/-- A child that nothing left needs running exits and is reaped. -/
theorem onCourse_finish {batch : List Event} (h : OnCourse H progs s) (hpc : s.pc = .reaping batch)
    (hi : s.stateOf i = some .running) (hnext : ∀ m, Before progs m (.finish i) → Passed s m) :
    ∃ s', OnCourse H progs s' ∧ s'.pc = .reaping batch ∧ s'.stateOf i = some .done ∧
      ∀ r, r ≠ i.val → s'.stateOf r = s.stateOf r := by
  obtain ⟨tr, hrun⟩ := h.run
  obtain ⟨pid, ch, hc, howner, hst⟩ := h.tended i hi
  obtain ⟨s', hreach, hpc', hquit, hlog, hdone, hother, hch⟩ := exists_reap hrun hpc hc hst (howner.symm ▸ hi)
  rw [howner] at hdone hother
  have hne : ∀ {r : Ref} {st : ProcessState}, st ≠ .done → s'.stateOf r = some st → r ≠ i.val := by
    rintro r st hst hr rfl
    exact hst (Option.some.inj (hr.symm.trans hdone))
  refine ⟨s', ⟨h.reached.trans hreach, hquit.trans h.quit, fun r hr => ?_, fun r g hg hr => ?_, fun r hr => ?_,
    fun r q hrq hq => ?_⟩, hpc', hdone, hother⟩
  · -- the children of the others are still there
    have hri := hne (by decide) hr
    obtain ⟨pid', ch', hch', ho', hst'⟩ := h.tended r ((hother r hri).symm.trans hr)
    have hpid : pid' ≠ pid := fun heq => by
      rw [heq, hc, Option.some.injEq] at hch'
      rw [← hch', howner] at ho'
      exact hri ho'.symm
    exact ⟨pid', ch', (hch pid' hpid).trans hch', ho', hst'⟩
  · have hri : r ≠ i.val := by
      rcases hr with hr | hr
      · exact hne (by decide) hr
      · exact hne (by decide) hr
    rw [hlog]
    exact h.unlogged r g hg (hother r hri ▸ hr)
  · exact h.uncrashed r ((hother r (hne (by decide) hr)).symm.trans hr)
  · intro hb
    have hri := hne (by decide) hb
    rw [hother r hri] at hb
    by_cases hqi : q = i.val
    · obtain ⟨g, -, hg, -⟩ := hrq.1
      subst hqi
      have hr : r < progs.length := (List.getElem?_eq_some_iff.mp hg).1
      exact hnext (.start ⟨r, hr⟩) (.during hrq) hb
    · exact h.ordered r q hrq ((hother q hqi).symm.trans hq) hb

theorem passed_of_same {n : ℕ} {m : Moment (Fin n)}
    (h : ∀ r, s'.stateOf r = s.stateOf r ∨ (s.stateOf r ≠ some .done ∧ s'.stateOf r = some .running))
    (hm : Passed s m) : Passed s' m := by
  cases m with
  | start i =>
    have hm : s.stateOf i ≠ some .blocked := hm
    show s'.stateOf i ≠ _
    rcases h i with he | ⟨-, he⟩ <;> rw [he]
    · exact hm
    · decide
  | finish i =>
    have hm : s.stateOf i = some .done := hm
    rcases h i with he | ⟨hnd, -⟩
    · exact he.trans hm
    · exact absurd hm hnd

/-- Where something is left, either a process that is held back has what it awaits, or one that runs can finish. -/
theorem exists_next_process (hf : Feasible H progs) (h : OnCourse H progs s) (hready : ∀ r, s.stateOf r ≠ some .ready)
    (hleft : ¬ ∀ m : Moment (Fin progs.length), Passed s m) :
    (∃ i : Fin progs.length, s.stateOf i = some .blocked ∧ ∀ st q, AwaitsIn progs st i q → s.stateOf q = some st) ∨
      ∃ i : Fin progs.length, s.stateOf i = some .running ∧ ∀ m, Before progs m (.finish i) → Passed s m := by
  obtain ⟨tr, hrun⟩ := h.run
  obtain ⟨m₀, hm₀⟩ := not_forall.mp hleft
  obtain ⟨m, hm, hnext⟩ := exists_next hf.acyclic hm₀
  have hstate : ∀ i : Fin progs.length, s.stateOf i ≠ some .blocked → s.stateOf i ≠ some .done →
      s.stateOf i = some .running := fun i hb hd => by
    have hlt : i.val < s.objs.length := by
      rw [(run_ids hrun).length, boot_length]
      exact i.isLt
    have hst := Sys.stateOf_eq (List.getElem?_eq_getElem hlt)
    cases hp : (s.objs[i.val]).state with
    | blocked => exact absurd (hst.trans (congrArg some hp)) hb
    | ready => exact absurd (hst.trans (congrArg some hp)) (hready i)
    | running => exact hst.trans (congrArg some hp)
    | done => exact absurd (hst.trans (congrArg some hp)) hd
    | crashed => exact absurd (hst.trans (congrArg some hp)) (h.uncrashed i)
    | backoff => exact absurd (hst.trans (congrArg some hp)) (stateOf_not_backoff hrun)
  cases m with
  | start i =>
    have hb : s.stateOf i = some .blocked := not_not.mp hm
    refine Or.inl ⟨i, hb, fun st q hiq => ?_⟩
    obtain ⟨g, g', hg, hg', -⟩ := hiq.1
    have hq : q < progs.length := (List.getElem?_eq_some_iff.mp hg').1
    rcases hiq.state with rfl | rfl
    · exact hnext (.finish ⟨q, hq⟩) (.after hiq)
    · refine hstate ⟨q, hq⟩ (hnext (.start ⟨q, hq⟩) (.started hiq)) fun hd => ?_
      exact h.ordered i q hiq hd hb
  | finish i => exact Or.inr ⟨i, hstate i (hnext _ (.own i)) hm, hnext⟩

/-- Nothing can be started at once, and what had passed before has passed. -/
structure Further (H : Host) (progs : List Program) (s s' : Sys) : Prop where
  onCourse : OnCourse H progs s'
  ready : ∀ r, s'.stateOf r ≠ some .ready
  passed : ∀ m : Moment (Fin progs.length), Passed s m → Passed s' m

theorem Further.trans {t : Sys} (h : Further H progs s t) (h' : Further H progs t s') : Further H progs s s' :=
  ⟨h'.onCourse, h'.ready, fun m hm => h'.passed m (h.passed m hm)⟩

/-- A step that changes nothing of all this. -/
theorem Further.kept {t : Sys} (h : Further H progs s t) (hs : step H t l = some s') (hsm : Smooth t l)
    (hl : ∀ pid rc, l ≠ .reap pid rc) (hquit : s'.handler.shouldQuit = t.handler.shouldQuit) (hobjs : s'.objs = t.objs)
    (hlog : s'.loggers = t.loggers) (hch : s'.kernel.children = t.kernel.children) : Further H progs s s' := by
  have hst : ∀ r, s'.stateOf r = t.stateOf r := fun r => congrArg (fun objs : Objs => objs[r]?.map _) hobjs
  refine ⟨h.onCourse.kept hs hsm hl hquit hobjs hlog hch, fun r => ?_, fun m hm => ?_⟩
  · rw [hst]
    exact h.ready r
  · exact passed_of_same (fun r => Or.inl (hst r)) (h.passed m hm)

/-- A call where something is left: it starts a process, or one that runs can finish. -/
theorem further_call {site : Site} (hf : Feasible H progs) (h : OnCourse H progs s)
    (hready : ∀ r, s.stateOf r ≠ some .ready) (hleft : ¬ ∀ m : Moment (Fin progs.length), Passed s m)
    (hpc : s.pc = .notify site) :
    ∃ s', Further H progs s s' ∧ s'.pc = afterStart site s' ∧ ∃ i : Fin progs.length, s'.stateOf i = some .running ∧
      (s.stateOf i = some .blocked ∨ ∀ m, Before progs m (.finish i) → Passed s' m) := by
  obtain ⟨s', hs', hpc', hready', hkeeps, hreleased⟩ := onCourse_call hf h hpc
  have hpassed : ∀ m : Moment (Fin progs.length), Passed s m → Passed s' m := fun _ => passed_of_same hkeeps
  refine ⟨s', ⟨hs', hready', hpassed⟩, hpc', ?_⟩
  rcases exists_next_process hf h hready hleft with ⟨i, hb, hheld⟩ | ⟨i, hrun, hnext⟩
  · exact ⟨i, hreleased i hb hheld, Or.inl hb⟩
  · refine ⟨i, ?_, Or.inr fun m hm => hpassed m (hnext m hm)⟩
    rcases hkeeps i with he | ⟨-, he⟩
    · exact he.trans hrun
    · exact he

/-- Before the next call, a process that can finish does, if none was started. -/
theorem further_reaping {t : Sys} {batch : List Event} (h : Further H progs s t) (hpc : t.pc = .reaping batch)
    (hrun : t.stateOf i = some .running)
    (hor : s.stateOf i = some .blocked ∨ ∀ m, Before progs m (.finish i) → Passed t m) : ∃ s', Further H progs s s' ∧
      s'.pc = .reaping batch ∧ ∃ m : Moment (Fin progs.length), ¬ Passed s m ∧ Passed s' m := by
  rcases hor with hb | hnext
  · refine ⟨t, h, hpc, .start i, not_not.mpr hb, ?_⟩
    show t.stateOf i ≠ _
    rw [hrun]
    decide
  · obtain ⟨s', hs', hpc', hd, hother⟩ := onCourse_finish h.onCourse hpc hrun hnext
    have hsame : ∀ r, s'.stateOf r = some .done ∨ s'.stateOf r = t.stateOf r := fun r => by
      by_cases hr : r = i.val
      · exact Or.inl (hr ▸ hd)
      · exact Or.inr (hother r hr)
    have hpassed : ∀ m : Moment (Fin progs.length), Passed t m → Passed s' m := fun m hm => by
      cases m with
      | start j =>
        show s'.stateOf j ≠ _
        rcases hsame j with he | he <;> rw [he]
        · decide
        · exact hm
      | finish j =>
        rcases hsame j with he | he
        · exact he
        · exact he.trans hm
    have hready : ∀ r, s'.stateOf r ≠ some .ready := fun r => by
      rcases hsame r with he | he <;> rw [he]
      · decide
      · exact h.ready r
    refine ⟨s', h.trans ⟨hs', hready, hpassed⟩, hpc', .finish i, fun hm => ?_, hd⟩
    have hdone : t.stateOf i = some .done := h.passed (.finish i) hm
    rw [hrun] at hdone
    cases hdone

/-- No child that has exited is left to be reaped. -/
theorem OnCourse.no_zombie (h : OnCourse H progs s) {pid : ℤ} {ch : Child} (hc : s.kernel.children[pid]? = some ch) :
    ch.status = none := by
  obtain ⟨tr, hrun⟩ := h.run
  have hi := run_ids hrun
  obtain ⟨p, hp, hst, hpid, -⟩ := hi.pidOwner pid ch.owner (hi.child pid ch hc).2
  obtain ⟨pid', ch', hc', howner, hst'⟩ := h.tended ch.owner ((Sys.stateOf_eq hp).trans (congrArg some hst))
  obtain ⟨p', hp', -, hpid', -⟩ := hi.pidOwner pid' ch.owner (howner ▸ (hi.child pid' ch' hc').2)
  -- a process has one child
  obtain rfl := Option.some.inj (hp.symm.trans hp')
  obtain rfl := hpid.symm.trans hpid'
  obtain rfl := Option.some.inj (hc.symm.trans hc')
  exact hst'

/-- The events change nothing of all this: a signal only tells that a child has exited. -/
theorem further_event (h : OnCourse H progs s) (hready : ∀ r, s.stateOf r ≠ some .ready) {e : Event}
    {batch : List Event} (hpc : s.pc = .handling (e :: batch)) :
    ∃ s', Further H progs s s' ∧ s'.pc = .handling batch := by
  obtain ⟨tr, hrun⟩ := h.run
  obtain ⟨c, s', hsm, hs, hpc'⟩ := exists_event hrun hpc
  have hself : Further H progs s s := ⟨h, hready, fun _ => id⟩
  have hl : ∀ pid rc, Label.event c ≠ .reap pid rc := fun _ _ hl => by cases hl
  obtain ⟨-, -, he⟩ := run_effect hrun hs
  refine ⟨s', ?_, hpc'⟩
  cases he with
  | signalled _ _ _ hn =>
    obtain rfl := pending_of_smoothly h.reached _ hn
    exact hself.kept hs hsm hl rfl rfl rfl rfl
  | output | hungUp => exact hself.kept hs hsm hl rfl rfl rfl rfl
  | eventFailed => cases hpc'

theorem further_events : ∀ (batch : List Event) {s : Sys}, OnCourse H progs s → (∀ r, s.stateOf r ≠ some .ready) →
    s.pc = .handling batch → ∃ s', Further H progs s s' ∧ s'.pc = .handling []
  | [], s, h, hready, hpc => ⟨s, ⟨h, hready, fun _ => id⟩, hpc⟩
  | e :: batch, s, h, hready, hpc => by
    obtain ⟨m, hm, hpcm⟩ := further_event h hready hpc
    obtain ⟨s', hs', hpc'⟩ := further_events batch hm.onCourse hm.ready hpcm
    exact ⟨s', hm.trans hs', hpc'⟩

/-- **A round**, where something is left: something more has passed after it, and the loop goes on
or nothing is left. -/
theorem further_round (hf : Feasible H progs) (h : OnCourse H progs s) (hready : ∀ r, s.stateOf r ≠ some .ready)
    (hleft : ¬ ∀ m : Moment (Fin progs.length), Passed s m) (hpc : s.pc = .notify .head) :
    ∃ s', Further H progs s s' ∧ (∃ m : Moment (Fin progs.length), ¬ Passed s m ∧ Passed s' m) ∧
      ((∀ m : Moment (Fin progs.length), Passed s' m) ∨ s'.pc = .notify .head) := by
  obtain ⟨t, ht, hpct, i, hrun, hor⟩ := further_call hf h hready hleft hpc
  obtain ⟨batch, hk, hreport⟩ := exists_report t.kernel t.handler.signalFd
  have hwait : step H t (.epollWait batch) = some { t with pc := .reaping batch } := by
    simp only [step, show t.pc = .polling from hpct, hk, and_self, if_true]
  have ht₁ := ht.kept hwait hreport (fun _ _ hl => by cases hl) rfl rfl rfl rfl
  obtain ⟨u, hu, hpcu, m, hm, hmu⟩ := further_reaping ht₁ rfl hrun hor
  have hreaped : step H u .reaped = some { u with pc := .handling batch } := by
    simp only [step, hpcu]
  have hu₁ := hu.kept hreaped (fun _ _ => hu.onCourse.no_zombie) (fun _ _ hl => by cases hl) rfl rfl rfl rfl
  obtain ⟨v, hv, hpcv⟩ := further_events batch hu₁.onCourse hu₁.ready rfl
  have htest : step H v .exitTest = some { v with pc := afterBatch v } := by
    simp only [step, hpcv]
  have hv₁ := (hu₁.trans hv).kept htest trivial (fun _ _ hl => by cases hl) rfl rfl rfl rfl
  have hpcv₁ : afterBatch v = .notify .tail := by
    rcases afterBatch_cases v with ⟨-, hq, -⟩ | ⟨-, hab⟩ | ⟨hq, -⟩
    · exact absurd (hq.symm.trans hv.onCourse.quit) (by decide)
    · exact hab
    · exact absurd (hq.symm.trans hv.onCourse.quit) (by decide)
  have hmv : Passed { v with pc := afterBatch v } m := hv.passed m hmu
  by_cases hall : ∀ m : Moment (Fin progs.length), Passed { v with pc := afterBatch v } m
  · exact ⟨_, hv₁, ⟨m, hm, hmv⟩, Or.inl hall⟩
  · obtain ⟨w, hw, hpcw, j, hrunj, -⟩ := further_call hf hv₁.onCourse hv₁.ready hall hpcv₁
    refine ⟨w, hv₁.trans hw, ⟨m, hm, hw.passed m hmv⟩, Or.inr ?_⟩
    -- a process runs, so the tail of the loop does not return
    obtain ⟨tr, hreach⟩ := hw.onCourse.run
    rcases afterStart_cases .tail w with ⟨h, -⟩ | ⟨-, -, hret⟩ | ⟨-, hhead⟩
    · cases h
    · obtain ⟨p, hp, hst⟩ := Sys.stateOf_eq_some.mp hrunj
      exact absurd hst (not_running_of_returned hreach (hpcw.trans hret) hp)
    · exact hpcw.trans hhead

/-- Round after round, until nothing is left. -/
theorem all_passed (hf : Feasible H progs) (h : OnCourse H progs s) (hready : ∀ r, s.stateOf r ≠ some .ready)
    (hpc : s.pc = .notify .head) :
    ∃ u, OnCourse H progs u ∧ ∀ m : Moment (Fin progs.length), Passed u m := by
  induction hn : {m : Moment (Fin progs.length) | ¬ Passed s m}.ncard using Nat.strong_induction_on generalizing s with
  | _ n ih =>
    by_cases hall : ∀ m : Moment (Fin progs.length), Passed s m
    · exact ⟨s, h, hall⟩
    · obtain ⟨s', hs', ⟨m, hm, hm'⟩, hpassed | hpc'⟩ := further_round hf h hready hall hpc
      · exact ⟨s', hs'.onCourse, hpassed⟩
      · refine ih _ ?_ hs'.onCourse hs'.ready hpc' rfl
        rw [← hn]
        exact Set.ncard_lt_ncard ⟨fun m hm hp => hm (hs'.passed m hp), fun hsub => hsub hm hm'⟩

/-- **Feasibility.** There is a run in which every program is done exactly if nothing stands in the way,
and then there is one in which nothing goes wrong. -/
theorem feasible_iff :
    ((∃ tr u, Runs H progs tr u ∧ ∀ r < progs.length, u.stateOf r = some .done) ↔ Feasible H progs) ∧
      (Feasible H progs → ∃ u, Smoothly H (boot H progs) u ∧ ∀ r < progs.length, u.stateOf r = some .done) := by
  have hsmooth : Feasible H progs →
      ∃ u, Smoothly H (boot H progs) u ∧ ∀ r < progs.length, u.stateOf r = some .done := by
    intro hf
    have hk : (boot H progs).kernel.MaySetup setupOk := by
      rw [boot_kernel]
      decide
    have hs : step H (boot H progs) (.setup setupOk) =
        some (Sys.goto (setupSignalHandlers setupOk (boot H progs)) (.notify .first)) := by
      simp only [step, boot_pc, hk, and_self, if_true]
    have hsetup := (onCourse_boot hf).kept hs ⟨rfl, rfl, rfl, rfl⟩ (fun _ _ hl => by cases hl) rfl rfl rfl rfl
    obtain ⟨s, hcourse, hpc, hready, -⟩ := onCourse_call hf hsetup rfl
    obtain ⟨u, hu, hall⟩ := all_passed hf hcourse hready hpc
    exact ⟨u, hu.reached, fun r hr => hall (.finish ⟨r, hr⟩)⟩
  refine ⟨⟨?_, fun hf => ?_⟩, hsmooth⟩
  · rintro ⟨tr, u, h, hall⟩
    refine ⟨names_nodup_of_all_done h hall, fun r g hg => ?_, acyclic_of_all_done h hall⟩
    have hd := hall r (List.getElem?_eq_some_iff.mp hg).1
    obtain ⟨_, _, _, -, -, -, -, -, henv⟩ := fork_of_done h hd hg
    exact henv
  · obtain ⟨u, ⟨tr, hrun, -⟩, hall⟩ := hsmooth hf
    exact ⟨tr, u, hrun, hall⟩

/-- `p` needs `q` running and `z` done, and `z` needs `q` done. -/
def entangled : List Program :=
  [plain 'q' "oneshot" [] [], plain 'z' "oneshot" ['p'] ['q'], plain 'p' "simple" [] ['q']]

theorem awaits_zq : AwaitsIn entangled .done 1 0 := by
  refine ⟨⟨_, _, rfl, rfl, Or.inl (by decide), 0, _, rfl, Or.inl (by decide)⟩, ?_⟩
  rintro g g' ⟨⟩ ⟨⟩
  decide

theorem awaits_pz : AwaitsIn entangled .done 2 1 := by
  refine ⟨⟨_, _, rfl, rfl, Or.inr (by decide), 1, _, rfl, Or.inr (by decide)⟩, ?_⟩
  rintro g g' ⟨⟩ ⟨⟩
  decide

theorem awaits_pq' : AwaitsIn entangled .running 2 0 := by
  refine ⟨⟨_, _, rfl, rfl, Or.inl (by decide), 0, _, rfl, Or.inl (by decide)⟩, ?_⟩
  rintro g g' ⟨⟩ ⟨⟩
  decide

/-- There is no cycle of programs, but `q` would have to be done before it may be. -/
example : ¬ ∃ tr u, Runs bareHost entangled tr u ∧ ∀ r < 3, u.stateOf r = some .done := by
  rintro ⟨tr, u, h, hall⟩
  have hz : Before entangled (.finish ⟨0, by decide⟩) (.start ⟨1, by decide⟩) := .after awaits_zq
  have hp : Before entangled (.finish ⟨1, by decide⟩) (.start ⟨2, by decide⟩) := .after awaits_pz
  have hq : Before entangled (.start ⟨2, by decide⟩) (.finish ⟨0, by decide⟩) := .during awaits_pq'
  exact acyclic_of_all_done h hall _ (.head hz (.head (.own _) (.head hp (.single hq))))

end Scinit
