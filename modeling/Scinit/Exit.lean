/-
# What is left when the event loop returns

`enter_eventloop` returns when its count is 0. Then no child is left and no
process runs. If no signal asked for the end, it returned after a whole call of
`start_programs`: what was ready then was tried and threw, and what is still
blocked has a condition that does not hold and never will.

Key definitions: `DependsOn`, `UnmetBy`.
Key theorems: `no_children_of_returned`, `not_running_of_returned`,
`unmet_of_blocked`, `exit_correct`.
-/
import Scinit.Calls
import Scinit.Tracking

namespace Scinit

open Transition

variable {H : Host} {progs : List Program} {base : Objs} {tr : List (Sys × Label)} {s s' : Sys} {l : Label}
  {rc : ℤ}

/-- The last step before the end: the exit test after a batch, or the end of the
last call of `start_programs`. -/
theorem returned_cases (h : Runs H progs tr s) (hpc : s.pc = .returned rc) :
    rc = 0 ∧ s.handler.numberOfRunningProcs = 0 ∧ ∃ tr' u, Runs H progs tr' u ∧
      ((tr = tr' ++ [(u, .started)] ∧ u.pc = .starting .tail [] ∧ s = { u with pc := .returned 0 }) ∨
        (tr = tr' ++ [(u, .exitTest)] ∧ u.pc = .handling [] ∧ s.handler.shouldQuit = true ∧
          s = { u with pc := .returned 0 })) := by
  cases h with
  | refl => cases hpc
  | @snoc tr u _ l h hs =>
    obtain ⟨-, -, he⟩ := run_effect h hs
    have hend := not_ended_of_step hs
    have hno : u.pc ≠ .returned rc := fun hu => by rw [hu] at hend; cases hend
    cases he with
    | setup | setupFailed | notify | skipped | unregistered | forked | epollWait | reaped
    | output | hungUp | eventFailed | signalled => cases hpc
    | threw _ _ _ _ _ hpc' => rcases hpc' with rfl | ⟨e, rfl⟩ <;> cases hpc
    | reap | reapUnknown | act => exact absurd hpc hno
    | @started site hu =>
      rcases afterStart_cases site u with ⟨-, hpc'⟩ | ⟨rfl, hnum, hpc'⟩ | ⟨-, hpc'⟩ <;> rw [hpc'] at hpc ⊢ <;>
        cases hpc
      exact ⟨rfl, hnum, tr, u, h, Or.inl ⟨rfl, hu, rfl⟩⟩
    | exitTest hu =>
      rcases afterBatch_cases u with ⟨hnum, hquit, hpc'⟩ | ⟨-, hpc'⟩ | ⟨-, hpc'⟩ <;> rw [hpc'] at hpc ⊢ <;>
        cases hpc
      exact ⟨rfl, hnum, tr, u, h, Or.inr ⟨rfl, hu, hquit, rfl⟩⟩
    | @signal n =>
      rcases deliver_cases H n u with ⟨p, hd⟩ | ⟨-, -, hd⟩
      · rw [hd] at hpc
        exact absurd hpc hno
      · rw [hd] at hpc
        cases hpc

/-- No child is left, and no fork was lost. -/
theorem no_children_of_returned (h : Runs H progs tr s) (hpc : s.pc = .returned rc) :
    s.kernel.children.size = 0 ∧ ∀ t l, (t, l) ∈ tr → ¬ LostFork H t l := by
  classical
  obtain ⟨-, hnum, -⟩ := returned_cases h hpc
  have hc := counter_eq h (by rw [hpc]; rfl)
  rw [hnum] at hc
  have h0 : (tr.countP fun e => decide (LostFork H e.1 e.2)) = 0 := by omega
  refine ⟨by omega, fun t l hm hlost => ?_⟩
  have := List.countP_eq_zero.mp h0 (t, l) hm
  exact this (decide_eq_true hlost)

/-- Where no exception ended scinit, every fork that failed was lost. -/
theorem not_failedFork (h : Runs H progs tr s) (ht : s.pc.isThrown = false)
    (hno : ∀ t l, (t, l) ∈ tr → ¬ LostFork H t l) : ∀ e ∈ tr, ¬ FailedFork H e.1 e.2 := by
  induction h with
  | refl => exact fun _ he => absurd he List.not_mem_nil
  | @snoc tr s s' l h hs ih =>
    obtain ⟨-, -, he⟩ := run_effect h hs
    simp only [List.forall_mem_append, List.forall_mem_singleton]
    refine ⟨ih (not_thrown_of_step hs) fun t l hm => hno t l (List.mem_append_left _ hm), fun hf => ?_⟩
    obtain ⟨c, r, rfl, hfork, hnone⟩ := hf.forkOf
    exact hno _ _ (by simp) (lostFork_of_fork he ht hfork hnone)

/-- When the event loop returns, no process runs. -/
theorem not_running_of_returned (h : Runs H progs tr s) (hpc : s.pc = .returned rc) {r : Ref}
    {p : ChildProcess} (hp : s.objs[r]? = some p) : p.state ≠ .running := by
  intro hrun
  obtain ⟨hsize, hno⟩ := no_children_of_returned h hpc
  have hi := run_ids h
  have hpos := pid_pos h (not_failedFork h (by rw [hpc]; rfl) hno) hp
    (ChildProcess.started_of_running hrun)
  have hid : s.handler.idForPid[p.primaryPid]? = some r := (hi.running r p hp hrun).resolve_left (by omega)
  obtain ⟨_, -, -, -, hneg | ⟨c, hc, -⟩⟩ := hi.pidOwner _ _ hid
  · omega
  · rw [Std.ExtTreeMap.eq_empty_iff_size_eq_zero.mpr hsize] at hc
    simp at hc

/-! ### The last call -/

/-- The event loop returned without being asked to: its last call has just ended. -/
theorem last_call (h : Runs H progs tr s) (hpc : s.pc = .returned rc)
    (hq : s.handler.shouldQuit = false) : ∃ pre t post u, tr = pre ++ (t, .notify) :: (post ++ [(u, .started)]) ∧
      Runs H progs pre t ∧ Call H .tail t post u (List.range progs.length) [] ∧
      s = { u with pc := .returned 0 } := by
  obtain ⟨-, -, tr', u, hu, ⟨rfl, hpu, rfl⟩ | ⟨-, -, hq', -⟩⟩ := returned_cases h hpc
  · obtain ⟨pre, t, post, rfl, hpre, hcall⟩ := call_complete hu hpu
    exact ⟨pre, t, post, u, by rw [List.append_assoc, List.cons_append], hpre, hcall, rfl⟩
  · rw [hq] at hq'
    cases hq'

/-- `p` has `q` in its conditions. -/
def DependsOn (s : Sys) (r q : Ref) : Prop :=
  ∃ p, s.objs[r]? = some p ∧ ∃ c ∈ p.conditions, c.1 = q

/-- `p` has `q` in its conditions and `q` is not in the state asked for. -/
def UnmetBy (s : Sys) (r q : Ref) : Prop :=
  ∃ p, s.objs[r]? = some p ∧ ∃ c ∈ p.conditions, c.1 = q ∧ s.stateOf q ≠ some c.2

/-- What the notifications leave blocked has a condition that does not hold. -/
theorem unmet_of_notified (hw : WellFormed base) (hi : Ids base t) {r : Ref} {p : ChildProcess}
    (hp : t.objs[r]? = some p) (hb : (notifyAll t).stateOf r = some .blocked) :
    ∃ c ∈ p.conditions, t.stateOf c.1 ≠ some c.2 := by
  rw [notified_stateOf hw hi hp, Option.some.injEq] at hb
  have hunmet : ¬ met t.objs t.handler.objForId p := by
    intro hm
    by_cases hbt : p.state = .blocked
    · rw [if_pos ⟨hbt, hm⟩] at hb
      cases hb
    · rw [if_neg fun h => hbt h.1] at hb
      exact hbt hb
  rw [met_iff hw hi hp] at hunmet
  push Not at hunmet
  exact hunmet

/-- What is done after the notifications was done before them. -/
theorem done_of_notified (hw : WellFormed base) (hi : Ids base t) {r : Ref}
    (hd : (notifyAll t).stateOf r = some .done) : t.stateOf r = some .done := by
  obtain ⟨p, hp⟩ : ∃ p, t.objs[r]? = some p := by
    cases hp : t.objs[r]? with
    | some p => exact ⟨p, rfl⟩
    | none =>
      rw [Sys.stateOf, notifyAll_get (hi.sensible hw), hp] at hd
      cases hd
  rw [notified_stateOf hw hi hp, Option.some.injEq] at hd
  split at hd
  · cases hd
  · exact Sys.stateOf_eq_some.mpr ⟨p, hp, hd⟩

/-- What is still blocked when the event loop returns has a condition that does not hold. -/
theorem unmet_of_blocked (h : Runs H progs tr s) (hpc : s.pc = .returned rc)
    (hq : s.handler.shouldQuit = false) {r : Ref} {p : ChildProcess} (hp : s.objs[r]? = some p)
    (hb : p.state = .blocked) : ∃ c ∈ p.conditions, s.stateOf c.1 ≠ some c.2 := by
  obtain ⟨pre, t, post, u, rfl, hpre, hcall, rfl⟩ := last_call h hpc hq
  have hw := boot_wellFormed H progs
  have hi := run_ids hpre
  -- what is blocked or done at the end was so after the notifications of the last call
  have hkept : ∀ {q : Ref} {st : ProcessState}, u.stateOf q = some st → st ≠ .ready → st ≠ .running →
      (notifyAll t).stateOf q = some st := by
    intro q st hst hne hne'
    obtain ⟨p', hp', -⟩ := Sys.stateOf_eq_some.mp hst
    have hlt : q < progs.length := run_lt (s := { u with pc := .returned 0 }) h hp'
    have hturn := hcall.turned q (List.mem_range.mpr hlt)
    rw [hst] at hturn
    exact hturn.eq_of_ne (fun h => hne (Option.some.inj h)) fun h => hne' (Option.some.inj h)
  obtain ⟨pt, hpt, hfix⟩ := (run_ids h).same hi hp
  have hnot := hkept (Sys.stateOf_eq_some.mpr ⟨p, hp, hb⟩) (by decide) (by decide)
  obtain ⟨c, hc, hne⟩ := unmet_of_notified hw hi hpt hnot
  refine ⟨c, ChildProcess.conditions_of_fixed hfix ▸ hc, ?_⟩
  rcases hi.sensible hw r pt hpt c hc with hcr | hcd
  · -- nothing runs any more
    rw [hcr]
    intro hrun
    obtain ⟨q, hq', hqs⟩ := Sys.stateOf_eq_some.mp hrun
    exact not_running_of_returned h rfl hq' hqs
  · rw [hcd] at hne ⊢
    exact fun hdone => hne (done_of_notified hw hi (hkept hdone (by decide) (by decide)))

/-- What is still ready when the event loop returns has had an attempt that threw. -/
theorem threw_of_ready (h : Runs H progs tr s) (hpc : s.pc = .returned rc)
    (hq : s.handler.shouldQuit = false) {r : Ref} (hr : s.stateOf r = some .ready) :
    ∃ u c, (u, Label.start c) ∈ tr ∧ Threw H u c r := by
  obtain ⟨pre, t, post, u, rfl, hpre, hcall, rfl⟩ := last_call h hpc hq
  obtain ⟨p, hp, -⟩ := Sys.stateOf_eq_some.mp hr
  have hturn := hcall.turned r (List.mem_range.mpr (run_lt h hp))
  rw [show u.stateOf r = some .ready from hr] at hturn
  generalize (notifyAll t).stateOf r = a at hturn
  cases hturn with
  | idle hne => exact absurd rfl hne
  | threw hm ht => exact ⟨_, _, by simp [hm], ht⟩

theorem stateOf_not_backoff (h : Runs H progs tr s) {r : Ref} : s.stateOf r ≠ some .backoff := by
  intro hb
  obtain ⟨p, hp, hst⟩ := Sys.stateOf_eq_some.mp hb
  have hlt := (run_ids h).lt_of_get hp
  refine Supervisor.not_backoff (fun i => ?_) (run_refines h) ⟨r, hlt⟩ ((statesOf_eq hp).trans hst)
  obtain ⟨q, hq⟩ : ∃ q, (boot H progs).objs[i.val]? = some q := ⟨_, List.getElem?_eq_getElem i.isLt⟩
  rw [statesOf_eq hq]
  rcases (boot_wellFormed H progs).state _ _ hq with h | h <;> rw [h] <;> decide

/-! ### The chain to a culprit -/

theorem statesOf_iff {n : ℕ} (hlen : s.objs.length = n) (i : Fin n) (st : ProcessState) :
    statesOf n s i = st ↔ s.stateOf i.val = some st := by
  obtain ⟨p, hp⟩ : ∃ p, s.objs[i.val]? = some p :=
    ⟨_, List.getElem?_eq_getElem (hlen.symm ▸ i.isLt)⟩
  rw [statesOf_eq hp, Sys.stateOf_eq hp, Option.some.injEq]

/-- What the supervisor needs is in the conditions of the objects. -/
theorem mem_needsOf (hi : Ids base s) {i : Fin base.length} {m : Fin base.length × ProcessState}
    (hm : m ∈ needsOf base i) : ∃ p, s.objs[i.val]? = some p ∧ (m.1.val, m.2) ∈ p.conditions := by
  obtain ⟨p₀, h0, hc⟩ := hm
  obtain ⟨p, hp, hfix⟩ := hi.get' h0
  exact ⟨p, hp, (ChildProcess.conditions_of_fixed hfix).symm ▸ hc⟩

theorem unmetBy_of_unmet (hi : Ids base s) {i j : Fin base.length}
    (hu : Supervisor.Unmet (needsOf base) (statesOf base.length s) i j) : UnmetBy s i.val j.val := by
  obtain ⟨m, hm, rfl, hne⟩ := hu
  obtain ⟨p, hp, hc⟩ := mem_needsOf hi hm
  exact ⟨p, hp, _, hc, rfl, fun h => hne ((statesOf_iff hi.length m.1 m.2).mpr h)⟩

/-- When the event loop returns unasked, a blocked process has something that it needs and does not get. -/
theorem stuck_of_returned (h : Runs H progs tr s) (hpc : s.pc = .returned rc) (hq : s.handler.shouldQuit = false)
    {i : Fin (boot H progs).objs.length} (hb : statesOf (boot H progs).objs.length s i = .blocked) :
    ∃ j, Supervisor.Unmet (needsOf (boot H progs).objs) (statesOf _ s) i j := by
  have hi := run_ids h
  obtain ⟨p, hp, hbp⟩ := Sys.stateOf_eq_some.mp ((statesOf_iff hi.length i _).mp hb)
  obtain ⟨c, hc, hne⟩ := unmet_of_blocked h hpc hq hp hbp
  obtain ⟨p₀, h0, hfix⟩ := hi.get hp
  have hlt := hi.known (boot_wellFormed H progs) hp hc
  have hneeds : (⟨c.1, hlt⟩, c.2) ∈ needsOf (boot H progs).objs i :=
    ⟨p₀, h0, ChildProcess.conditions_of_fixed hfix ▸ hc⟩
  exact ⟨⟨c.1, hlt⟩, _, hneeds, rfl, fun he => hne ((statesOf_iff hi.length _ _).mp he)⟩

/-- If the conditions have no cycle, a chain of conditions that do not hold leads to a culprit. -/
theorem culprit_of_blocked (h : Runs H progs tr s) (hpc : s.pc = .returned rc) (hq : s.handler.shouldQuit = false)
    (hac : ∀ r, ¬ Relation.TransGen (DependsOn s) r r) {r : Ref} (hr : s.stateOf r = some .blocked) :
    ∃ k q, Relation.ReflTransGen (fun a b => UnmetBy s a b ∧ s.stateOf b = some .blocked) r k ∧
      s.stateOf k = some .blocked ∧ UnmetBy s k q ∧
      (s.stateOf q = some .crashed ∨
        (s.stateOf q = some .done ∧ ∃ p, s.objs[k]? = some p ∧ (q, .running) ∈ p.conditions) ∨
        (s.stateOf q = some .ready ∧ ∃ u c, (u, Label.start c) ∈ tr ∧ Threw H u c q)) := by
  have hw := boot_wellFormed H progs
  have hi := run_ids h
  have hlen := hi.length
  obtain ⟨p, hp, hb⟩ := Sys.stateOf_eq_some.mp hr
  have hac' : ∀ i, ¬ Relation.TransGen
      (fun i j => ∃ m ∈ needsOf (boot H progs).objs i, m.1 = j) i i := by
    intro i hcyc
    refine hac i.val (Relation.TransGen.lift Fin.val ?_ _ _ hcyc)
    rintro a b ⟨m, hm, rfl⟩
    obtain ⟨p, hp, hc⟩ := mem_needsOf hi hm
    exact ⟨p, hp, _, hc, rfl⟩
  have hrun : ∀ i, statesOf (boot H progs).objs.length s i ≠ .running ∧
      statesOf (boot H progs).objs.length s i ≠ .backoff := by
    refine fun i => ⟨fun hrun => ?_, fun hback =>
      stateOf_not_backoff h ((statesOf_iff hlen i _).mp hback)⟩
    obtain ⟨p, hp, hrp⟩ := Sys.stateOf_eq_some.mp ((statesOf_iff hlen i _).mp hrun)
    exact not_running_of_returned h hpc hp hrp
  have hneeds : ∀ i, ∀ m ∈ needsOf (boot H progs).objs i, m.2 = .running ∨ m.2 = .done := by
    rintro i m ⟨p₀, h0, hc⟩
    exact hw.sensible i.val p₀ h0 _ hc
  obtain ⟨k, q, hchain, hk, hu, hq'⟩ := Supervisor.culprit hac' hneeds (fun i => stuck_of_returned h hpc hq) hrun
    ((statesOf_iff hlen ⟨r, hi.lt_of_get hp⟩ _).mpr hr)
  refine ⟨k.val, q.val, ?_, (statesOf_iff hlen k _).mp hk, unmetBy_of_unmet hi hu, ?_⟩
  · refine Relation.ReflTransGen.lift Fin.val ?_ _ _ hchain
    rintro a b ⟨hab, hbb⟩
    exact ⟨unmetBy_of_unmet hi hab, (statesOf_iff hlen b _).mp hbb⟩
  · rcases hq' with hc | ⟨hd, m, hm, rfl⟩ | hrd
    · exact Or.inl ((statesOf_iff hlen q _).mp hc)
    · exact Or.inr (Or.inl ⟨(statesOf_iff hlen q _).mp hd, mem_needsOf hi hm⟩)
    · have hrd := (statesOf_iff hlen q _).mp hrd
      exact Or.inr (Or.inr ⟨hrd, threw_of_ready h hpc hq hrd⟩)

/-- **Exit correctness.** When the event loop returns 0, nothing runs. When it
was not asked to end, what was never forked is ready after an attempt that threw,
or blocked on a condition that does not hold; and if the conditions have no
cycle, a chain of such conditions leads to a process that crashed, that is done
where it was required running, or that is ready after an attempt that threw. -/
theorem exit_correct (h : Runs H progs tr s) (hpc : s.pc = .returned 0) :
    (∀ (r : Ref) (p : ChildProcess), s.objs[r]? = some p → p.state ≠ .running) ∧
    (s.handler.shouldQuit = false →
      (∀ (r : Ref) (p : ChildProcess), s.objs[r]? = some p →
        (∀ e ∈ tr, forkOf H e.1 e.2 ≠ some r) →
        (p.state = .ready ∧ ∃ u c, (u, Label.start c) ∈ tr ∧ Threw H u c r) ∨
          (p.state = .blocked ∧ ∃ c ∈ p.conditions, s.stateOf c.1 ≠ some c.2)) ∧
      ((∀ r, ¬ Relation.TransGen (DependsOn s) r r) → ∀ r, s.stateOf r = some .blocked →
        ∃ k q, Relation.ReflTransGen (fun a b => UnmetBy s a b ∧ s.stateOf b = some .blocked) r k ∧
          s.stateOf k = some .blocked ∧ UnmetBy s k q ∧
          (s.stateOf q = some .crashed ∨
            (s.stateOf q = some .done ∧ ∃ p, s.objs[k]? = some p ∧ (q, .running) ∈ p.conditions) ∨
            (s.stateOf q = some .ready ∧ ∃ u c, (u, Label.start c) ∈ tr ∧ Threw H u c q)))) := by
  refine ⟨fun r p hp => not_running_of_returned h hpc hp, fun hq => ⟨fun r p hp hnever => ?_,
    fun hac r hr => culprit_of_blocked h hpc hq hac hr⟩⟩
  by_cases hst : p.started
  · obtain ⟨t, c, hm, hf, -⟩ := started_forked h hp hst
    exact absurd hf (hnever _ hm)
  · by_cases hb : p.state = .blocked
    · exact Or.inr ⟨hb, unmet_of_blocked h hpc hq hp hb⟩
    · have hr : p.state = .ready := by
        by_contra hr
        exact hst ⟨hb, hr⟩
      exact Or.inl ⟨hr, threw_of_ready h hpc hq (Sys.stateOf_eq_some.mpr ⟨p, hp, hr⟩)⟩

/-- `a` is started and crashes; `b` is never started. -/
def crashA : List Label :=
  [.setup setupOk, .notify, .start (startOk 10 100), .start (startOk 20 101), .started,
    .notify, .start (startOk 20 101), .start (startOk 20 101), .started,
    .epollWait [], .act (.exit 100 1), .reap 100 1, .reaped, .exitTest,
    .notify, .start (startOk 20 101), .start (startOk 20 101), .started]

theorem crashA_possible : (exec (step bareHost) (boot bareHost chainAB) crashA).isSome = true := by decide

theorem exit_correct_crashA : ∃ p,
    ((exec (step bareHost) (boot bareHost chainAB) crashA).get crashA_possible).objs[1]? = some p ∧
      p.state = .blocked ∧ ∃ c ∈ p.conditions,
        ((exec (step bareHost) (boot bareHost chainAB) crashA).get crashA_possible).stateOf c.1 ≠ some c.2 := by
  have hall := (exit_correct (Run.of_isSome crashA_possible) (by decide)).2 (by decide)
  obtain ⟨p, hp⟩ := Option.isSome_iff_exists.mp (show (((exec (step bareHost) (boot bareHost chainAB)
    crashA).get crashA_possible).objs[1]?).isSome = true by decide)
  rcases hall.1 1 p hp (by decide) with ⟨hr, -⟩ | hb
  · have hst := Sys.stateOf_eq hp
    rw [hr] at hst
    revert hst
    decide
  · exact ⟨p, hp, hb⟩

end Scinit
