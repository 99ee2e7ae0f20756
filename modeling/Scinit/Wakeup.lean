/-
# Which wake-ups are lost

`notify_of_state` compares the present state of a dependency with the state
asked for. A process that is DONE stays DONE, so a call of `start_programs`
still finds it; one that was RUNNING may have been reaped since the last call,
and then nobody has seen it run. So a blocked process is started by the next
call if what it needs DONE has been DONE at any moment and what it needs
RUNNING is RUNNING when the call notifies, and `missed_wakeup` is a run in which
a process waits forever for another that ran between two calls.

Key definitions: `throwOf`, `Occurred`, `Due`.
Key theorems: `call_from`, `released_of_due`, `forked_of_due`, `no_lost_wakeup`, `missed_wakeup`.
-/
import Scinit.Exit

namespace Scinit

open Transition

variable {H : Host} {progs : List Program} {tr pre post : List (Sys × Label)} {s s' t u : Sys} {l : Label}

/-- The object whose start attempt a step makes and that throws. -/
def throwOf (H : Host) (s : Sys) : Label → Option Ref
  | .start c =>
    match s.pc with
    | .starting _ (ref :: _) =>
      match s.objs[ref]? with
      | some p => if p.canStartNow ∧ (startProgram H c ref p s).2 ≠ none then some ref else none
      | none => none
    | _ => none
  | _ => none

theorem throwOf_of_threw {c : StartCalls} {r : Ref} (h : Threw H s c r) :
    throwOf H s (.start c) = some r := by
  obtain ⟨site, todo, p, hpc, hp, hr, hexn⟩ := h
  simp [throwOf, hpc, hp, ChildProcess.canStartNow, hr, hexn]

/-! ### From a notification on -/

/-- A call goes on until it returns, unless scinit ends in it. -/
theorem starting_goes_on (he : Effect H s l s') (hl : l ≠ .started) {site : Site} {todo : List Ref}
    (hpc : s.pc = .starting site todo) : s'.pc.isThrown = true ∨ (∃ n, s'.pc = .killed n) ∨
      ∃ site' todo', s'.pc = .starting site' todo' := by
  cases he with
  | setup hpc1 | setupFailed hpc1 | notify hpc1 | epollWait hpc1 | reap hpc1 | reapUnknown hpc1
  | reaped hpc1 | signalled hpc1 | output hpc1 | hungUp hpc1 | eventFailed hpc1 | exitTest hpc1 =>
    rw [hpc] at hpc1
    cases hpc1
  | started => exact absurd rfl hl
  | unregistered => exact Or.inl rfl
  | skipped => exact Or.inr (Or.inr ⟨_, _, rfl⟩)
  | threw _ _ _ _ _ hpcs =>
    rcases hpcs with rfl | ⟨e, rfl⟩
    · exact Or.inr (Or.inr ⟨_, _, rfl⟩)
    · exact Or.inl rfl
  | forked => exact Or.inr (Or.inr ⟨_, _, rfl⟩)
  | act => exact Or.inr (Or.inr ⟨_, _, hpc⟩)
  | @signal n =>
    rcases deliver_cases H n s with ⟨p, hd⟩ | ⟨-, -, hd⟩
    · rw [hd]
      exact Or.inr (Or.inr ⟨_, _, hpc⟩)
    · rw [hd]
      exact Or.inr (Or.inl ⟨_, rfl⟩)

/-- **What comes after a notification**: the call it begins, until that returns or scinit ends. -/
theorem call_from (hpre : Runs H progs pre t) {site : Site} (hpc : t.pc = .notify site)
    (h : Run (step H) { notifyAll t with pc := .starting site t.handler.allObjs } post u)
    (hno : ∀ e ∈ post, e.2 ≠ .started) : u.pc.isThrown = true ∨ (∃ n, u.pc = .killed n) ∨
      ∃ done todo, u.pc = .starting site todo ∧ Call H site t post u done todo := by
  have hnotify : step H t .notify = some { notifyAll t with pc := .starting site t.handler.allObjs } := by
    simp only [step, hpc]
  have hnd : t.handler.allObjs.Nodup := by
    rw [(run_ids hpre).allObjs]
    exact List.nodup_range
  induction h with
  | refl => exact Or.inr (Or.inr ⟨_, _, rfl, Call.start hpc _⟩)
  | @snoc post v u l hv hs ih =>
    simp only [List.forall_mem_append, List.forall_mem_singleton] at hno
    have hrun : Runs H progs (pre ++ (t, .notify) :: post) v := hpre.trans ((Run.single hnotify).trans hv)
    obtain ⟨-, -, he⟩ := run_effect hrun hs
    have hend := not_ended_of_step hs
    rcases ih hno.1 with ht | ⟨n, hn⟩ | ⟨done, todo, hpcv, hcall⟩
    · rw [not_thrown_of_step hs] at ht
      cases ht
    · rw [hn] at hend
      cases hend
    · rcases starting_goes_on he hno.2 hpcv with h | h | ⟨site', todo', h⟩
      · exact Or.inl h
      · exact Or.inr (Or.inl h)
      · obtain ⟨rfl, done', hcall'⟩ := hcall.step hnd hpcv he h
        exact Or.inr (Or.inr ⟨done', todo', h, hcall'⟩)

/-- What is done stays done. -/
theorem done_stays (h : Runs H progs tr s) {v : Sys} (hv : v ∈ visited tr s) {q : Ref}
    (hd : v.stateOf q = some .done) : s.stateOf q = some .done := by
  obtain ⟨b, hb, rfl⟩ := stateOf_stays (P := (· = .done)) (fun hm he => by subst he; cases hm) h hv hd rfl
  exact hb

/-! ### The wake-up -/

/-- Every process in `p`'s conditions has been in the state asked for, at some moment of the run. -/
def Occurred (pre : List (Sys × Label)) (t : Sys) (p : ChildProcess) : Prop :=
  ∀ c ∈ p.conditions, ∃ v ∈ visited pre t, v.stateOf c.1 = some c.2

instance (pre : List (Sys × Label)) (t : Sys) (p : ChildProcess) : Decidable (Occurred pre t p) := by
  unfold Occurred; infer_instance

/-- It has occurred, and what is asked to be RUNNING is RUNNING now. -/
def Due (pre : List (Sys × Label)) (t : Sys) (p : ChildProcess) : Prop :=
  Occurred pre t p ∧ ∀ c ∈ p.conditions, c.2 = .running → t.stateOf c.1 = some .running

instance (pre : List (Sys × Label)) (t : Sys) (p : ChildProcess) : Decidable (Due pre t p) := by
  unfold Due; infer_instance

theorem met_of_due (hpre : Runs H progs pre t) {r : Ref} {p : ChildProcess} (hp : t.objs[r]? = some p)
    (hdue : Due pre t p) : met t.objs t.handler.objForId p := by
  have hw := boot_wellFormed H progs
  have hi := run_ids hpre
  rw [met_iff hw hi hp]
  intro c hc
  rcases hi.sensible hw r p hp c hc with hrun | hdone
  · rw [hrun]
    exact hdue.2 c hc hrun
  · obtain ⟨v, hv, hst⟩ := hdue.1 c hc
    rw [hdone] at hst ⊢
    exact done_stays hpre hv hst

/-- A notification takes what is due out of BLOCKED, for good. -/
theorem released_of_due (h : Runs H progs (pre ++ (t, .notify) :: post) s) {r : Ref} {p : ChildProcess}
    (hp : t.objs[r]? = some p) (hb : p.state = .blocked) (hdue : Due pre t p) : s.stateOf r ≠ some .blocked := by
  obtain ⟨hpre, t', hs, hpost⟩ := h.split
  have hready : t'.stateOf r = some .ready := by
    obtain ⟨-, -, he⟩ := run_effect hpre hs
    cases he with
    | notify =>
      show (notifyAll t).stateOf r = _
      rw [notified_stateOf (boot_wellFormed H progs) (run_ids hpre) hp, if_pos ⟨hb, met_of_due hpre hp hdue⟩]
  obtain ⟨b, hb', hne⟩ := stateOf_stays (P := (· ≠ .blocked)) (fun hm _ he => by subst he; cases hm)
    ((hpre.snoc hs).trans hpost) (v := t') (by
      rw [visited_append]
      exact List.mem_append_right _ hpost.start_mem_visited) hready (by decide)
  rw [hb']
  exact fun he => hne (Option.some.inj he)

/-- A whole call forks what is due when it begins, unless the attempt throws. -/
theorem forked_of_due (hpre : Runs H progs pre t) {site : Site} {r : Ref} {p : ChildProcess}
    (hcall : Call H site t post u (List.range progs.length) []) (hno : ∀ e ∈ post, throwOf H e.1 e.2 = none)
    (hp : t.objs[r]? = some p) (hb : p.state = .blocked) (hdue : Due pre t p) :
    ∃ v c, (v, Label.start c) ∈ post ∧ forkOf H v (.start c) = some r := by
  have hw := boot_wellFormed H progs
  have hi := run_ids hpre
  have hturn := hcall.turned r (List.mem_range.mpr (run_lt hpre hp))
  rw [notified_stateOf hw hi hp, if_pos ⟨hb, met_of_due hpre hp hdue⟩] at hturn
  generalize u.stateOf r = b at hturn
  cases hturn with
  | idle hne => exact absurd rfl hne
  | @forked v l hm hf =>
    obtain ⟨c, _, _, _, rfl, -⟩ := forkOf_eq_some hf
    exact ⟨v, c, hm, hf⟩
  | threw hm ht =>
    have := hno _ hm
    rw [throwOf_of_threw ht] at this
    cases this

/-- Where a call of `start_programs` has come to. -/
theorem call_of_started (h : Runs H progs (pre ++ (t, .notify) :: post) u) {site : Site} {todo : List Ref}
    (hno : ∀ e ∈ post, e.2 ≠ .started) (hpc : u.pc = .starting site todo) :
    ∃ done, Call H site t post u done todo := by
  obtain ⟨hpre, t', hs, hpost⟩ := h.split
  obtain ⟨-, -, he⟩ := run_effect hpre hs
  cases he with
  | notify hpct =>
    rcases call_from hpre hpct hpost hno with ht | ⟨n, hn⟩ | ⟨done, todo', hpcu, hcall⟩
    · rw [hpc] at ht
      cases ht
    · rw [hpc] at hn
      cases hn
    · rw [hpc] at hpcu
      cases hpcu
      exact ⟨done, hcall⟩

/-- A call that returns has given every object its turn. -/
theorem call_of_returns (h : Runs H progs (pre ++ (t, .notify) :: post) u) (hno : ∀ e ∈ post, e.2 ≠ .started)
    (hs : step H u .started = some u') : ∃ site, u.pc = .starting site [] ∧
      Call H site t post u (List.range progs.length) [] := by
  obtain ⟨-, -, he⟩ := run_effect h hs
  cases he with
  | started hpc =>
    obtain ⟨done, hcall⟩ := call_of_started h hno hpc
    have hall := hcall.all
    rw [(run_ids h.split.1).allObjs, List.append_nil, boot_length] at hall
    subst hall
    exact ⟨_, hpc, hcall⟩

/-- **No wake-up is lost** of those that are due. Where no start attempt throws,
each call of `start_programs` takes every process that was blocked and due when it
began out of BLOCKED, and has forked it when it returns; and the event loop does
not return, unasked, with such a process never forked. -/
theorem no_lost_wakeup (h : Runs H progs tr s) (hno : ∀ e ∈ tr, throwOf H e.1 e.2 = none) :
    (∀ pre t post, tr = pre ++ (t, .notify) :: post → ∀ (r : Ref) (p : ChildProcess), t.objs[r]? = some p →
      p.state = .blocked → Due pre t p → s.stateOf r ≠ some .blocked) ∧
    (∀ pre t post u post', tr = pre ++ (t, .notify) :: (post ++ (u, .started) :: post') →
      (∀ e ∈ post, e.2 ≠ .started) → ∀ (r : Ref) (p : ChildProcess), t.objs[r]? = some p →
        p.state = .blocked → Due pre t p →
        ∃ v c, (v, Label.start c) ∈ post ∧ forkOf H v (.start c) = some r) ∧
    (s.pc = .returned 0 → s.handler.shouldQuit = false →
      ∀ pre t post, tr = pre ++ (t, .notify) :: post → ∀ (r : Ref) (p : ChildProcess),
        t.objs[r]? = some p → p.state = .blocked → Due pre t p →
        ∃ v c, (v, Label.start c) ∈ post ∧ forkOf H v (.start c) = some r) := by
  have hfirst : ∀ pre t post u post', tr = pre ++ (t, .notify) :: (post ++ (u, .started) :: post') →
      (∀ e ∈ post, e.2 ≠ .started) → ∀ (r : Ref) (p : ChildProcess), t.objs[r]? = some p →
        p.state = .blocked → Due pre t p →
        ∃ v c, (v, Label.start c) ∈ post ∧ forkOf H v (.start c) = some r := by
    rintro pre t post u post' rfl hpost r p hp hb hdue
    rw [← List.cons_append, ← List.append_assoc] at h
    obtain ⟨hu, _, hs, -⟩ := h.split
    obtain ⟨site, -, hcall⟩ := call_of_returns hu hpost hs
    exact forked_of_due hu.split.1 hcall (fun e he => hno e (by simp [he])) hp hb hdue
  refine ⟨fun pre t post htr r p hp hb hdue => released_of_due (htr ▸ h) hp hb hdue, hfirst,
    fun hpc _ pre t post htr r p hp hb hdue => ?_⟩
  -- the call returned, for scinit has not ended in it
  by_cases hret : ∃ e ∈ post, e.2 = .started
  · obtain ⟨as, ⟨u, l⟩, bs, rfl, rfl, has⟩ := exists_first hret
    obtain ⟨v, c, hm, hf⟩ := hfirst pre t as u bs htr has r p hp hb hdue
    exact ⟨v, c, List.mem_append_left _ hm, hf⟩
  · push Not at hret
    subst htr
    obtain ⟨hpre, t', hs, hpost⟩ := h.split
    obtain ⟨-, -, he⟩ := run_effect hpre hs
    cases he with
    | notify hpct =>
      rcases call_from hpre hpct hpost hret with ht | ⟨n, hn⟩ | ⟨_, _, hpcu, -⟩
      · rw [hpc] at ht
        cases ht
      · rw [hpc] at hn
        cases hn
      · rw [hpc] at hpcu
        cases hpcu

/-- `b` waits for `a` to be done, and `a` has ended well. -/
def aDone : List Label :=
  [.setup setupOk, .notify, .start (startOk 10 100), .start (startOk 20 101), .started,
    .notify, .start (startOk 20 101), .start (startOk 20 101), .started,
    .epollWait [], .act (.exit 100 0), .reap 100 0, .reaped, .exitTest]

/-- The next call starts `b`, which ends well too. -/
def bDone : List Label :=
  [.start (startOk 20 101), .start (startOk 20 101), .started,
    .notify, .start (startOk 30 102), .start (startOk 30 102), .started,
    .epollWait [], .act (.exit 101 0), .reap 101 0, .reaped, .exitTest,
    .notify, .start (startOk 30 102), .start (startOk 30 102), .started]

theorem aDone_possible : (exec (step bareHost) (boot bareHost chainAB) aDone).isSome = true := by decide

theorem bDone_possible :
    (exec (step bareHost) (boot bareHost chainAB) (aDone ++ .notify :: bDone)).isSome = true := by decide

theorem no_lost_wakeup_bDone : ∃ e ∈ trace (step bareHost) (boot bareHost chainAB) (aDone ++ .notify :: bDone),
    forkOf bareHost e.1 e.2 = some 1 := by
  have hall := (no_lost_wakeup (Run.of_isSome bDone_possible) (by decide)).2.2 (by decide) (by decide)
  have htr := trace_append (.notify :: bDone) (Option.some_get aDone_possible).symm
  obtain ⟨v, c, hm, hf⟩ := hall _ _ _ htr 1 (((exec (step bareHost) (boot bareHost chainAB)
    aDone).get aDone_possible).objs.get ⟨1, by decide⟩) (by decide) (by decide) (by decide)
  exact ⟨_, htr ▸ List.mem_append_right _ (List.mem_cons_of_mem _ hm), hf⟩

/-! ### A wake-up that is lost -/

/-- `p` waits for `q` to run, `q` waits for `r` to run. -/
def chainRQP : List Program :=
  [plain 'r' "simple" [] [], plain 'q' "simple" [] ['r'], plain 'p' "simple" [] ['q']]

/-- `q` is started by the call before `epoll_wait` and reaped before the next
one, so no notification sees it run. -/
def qRan : List Label :=
  [.setup setupOk,
    .notify, .start (startOk 10 100), .start (startOk 20 101), .start (startOk 20 101), .started,
    .notify, .start (startOk 20 101), .start (startOk 20 101), .start (startOk 30 102), .started,
    .epollWait [], .act (.exit 100 0), .act (.exit 101 0), .reap 100 0, .reap 101 0, .reaped, .exitTest]

/-- The last call. -/
def nothingStarted : List Label :=
  [.start (startOk 30 102), .start (startOk 30 102), .start (startOk 30 102), .started]

theorem qRan_possible : (exec (step bareHost) (boot bareHost chainRQP) qRan).isSome = true := by decide

theorem nothingStarted_possible : (exec (step bareHost) (boot bareHost chainRQP)
    (qRan ++ .notify :: nothingStarted)).isSome = true := by decide

/-- It is not enough that what `p` needs has occurred: `q` has been RUNNING, and
the event loop returns with `p` never forked. -/
theorem missed_wakeup : ¬ ∀ (H : Host) (progs : List Program) (tr : List (Sys × Label)) (s : Sys),
    Runs H progs tr s → (∀ e ∈ tr, throwOf H e.1 e.2 = none) → (∀ e ∈ tr, e.2.forkOk = true) →
    s.pc = .returned 0 → s.handler.shouldQuit = false →
    ∀ pre t post, tr = pre ++ (t, .notify) :: post → ∀ (r : Ref) (p : ChildProcess),
      t.objs[r]? = some p → p.state = .blocked → Occurred pre t p →
      ∃ v c, (v, Label.start c) ∈ post ∧ forkOf H v (.start c) = some r := by
  intro hall
  have htr := trace_append (.notify :: nothingStarted) (Option.some_get qRan_possible).symm
  obtain ⟨v, c, hm, hf⟩ := hall bareHost chainRQP _ _ (Run.of_isSome nothingStarted_possible) (by decide)
    (by decide) (by decide) (by decide) _ _ _ htr 2 (((exec (step bareHost) (boot bareHost chainRQP)
      qRan).get qRan_possible).objs.get ⟨2, by decide⟩) (by decide) (by decide) (by decide)
  have hnever : ∀ e ∈ trace (step bareHost) (boot bareHost chainRQP) (qRan ++ .notify :: nothingStarted),
      forkOf bareHost e.1 e.2 ≠ some 2 := by decide
  exact hnever _ (htr ▸ List.mem_append_right _ (List.mem_cons_of_mem _ hm)) hf

end Scinit
