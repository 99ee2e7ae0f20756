/-
# Which dependencies hold at a fork

When a process is forked, the programs it is to be started after should have
been started: a oneshot is done, a simple program has been running. A process
that registration left blocked was released by notifications that found every
condition met; one that registration left ready is forked in the first call,
whatever was declared after its turn. So a fork keeps its dependencies if and
only if registration has put them down right, and that is a property of the
entries (`DependenciesDeclared`).

Key definitions: `DependenciesStarted`, `DependenciesDeclared`.
Key theorems: `fork_cases`, `conditions_at_fork`, `started_iff_declared`, `started_early`.
-/
import Scinit.Wakeup
import Scinit.Declared

namespace Scinit

open Transition

variable {H : Host} {progs : List Program} {tr pre pre₀ post : List (Sys × Label)} {s s' t t' u : Sys} {l : Label}
  {r : Ref}

/-! ### What a run remembers -/

/-- What has been started has been running. -/
theorem ran_of_stateOf (h : Runs H progs tr s) {q : Ref} {st : ProcessState} (hq : s.stateOf q = some st)
    (hst : Supervisor.Started st) : ∃ v ∈ visited tr s, v.stateOf q = some .running := by
  obtain ⟨p, hp, -⟩ := Sys.stateOf_eq_some.mp hq
  have hi := run_ids h
  have hlt := hi.lt_of_get hp
  have h0 : ∀ i, ¬ Supervisor.Started (statesOf (boot H progs).objs.length (boot H progs) i) := by
    intro i
    obtain ⟨p, hp⟩ : ∃ p, (boot H progs).objs[i.val]? = some p := ⟨_, List.getElem?_eq_getElem i.isLt⟩
    rw [statesOf_eq hp]
    rcases (boot_wellFormed H progs).state _ _ hp with h | h <;> rw [h] <;>
      exact fun hs => by rcases hs with h | h | h <;> cases h
  have hs : Supervisor.Started (statesOf (boot H progs).objs.length s ⟨q, hlt⟩) := by
    rw [(statesOf_iff hi.length ⟨q, hlt⟩ st).mpr hq]
    exact hst
  obtain ⟨st', hmem, hrun⟩ := Supervisor.ran_of_started h0 (run_refines h) hs
  rw [visited_map, List.mem_map] at hmem
  obtain ⟨v, hv, rfl⟩ := hmem
  obtain ⟨_, _, -, hvr, -⟩ := h.prefix_of_visited hv
  exact ⟨v, hv, (statesOf_iff (run_ids hvr).length ⟨q, hlt⟩ _).mp hrun⟩

/-- What has left BLOCKED does not come back to it. -/
theorem not_blocked_stays (h : Runs H progs tr s) {r : Ref} {p₀ p : ChildProcess}
    (h0 : (boot H progs).objs[r]? = some p₀) (hp : s.objs[r]? = some p) (hb : p.state = .blocked) :
    p₀.state = .blocked := by
  by_contra hne
  obtain ⟨b, hb', hnb⟩ := stateOf_stays (P := (· ≠ .blocked)) (fun hm _ he => by subst he; cases hm) h
    h.start_mem_visited (Sys.stateOf_eq h0) hne
  rw [Sys.stateOf_eq hp, Option.some.injEq] at hb'
  exact hnb (hb' ▸ hb)

/-- Up to the first call nothing changes the objects. -/
theorem objs_of_first (h : Runs H progs tr s) (hpc : s.pc = .setup ∨ s.pc = .notify .first) :
    s.objs = (boot H progs).objs := by
  induction h with
  | refl => rfl
  | @snoc tr s s' l h hs ih =>
    obtain ⟨-, -, he⟩ := run_effect h hs
    cases he with
    | setup hpc₀ => exact ih (Or.inl hpc₀)
    | setupFailed | notify | skipped | unregistered | forked | epollWait | reaped | signalled | output
    | hungUp | eventFailed => rcases hpc with h | h <;> cases h
    | threw _ _ _ _ _ hpcs => rcases hpcs with rfl | ⟨e, rfl⟩ <;> rcases hpc with h | h <;> cases h
    | @started site =>
      have hpc : afterStart site s = .setup ∨ afterStart site s = .notify .first := hpc
      rcases afterStart_cases site s with ⟨-, h⟩ | ⟨-, -, h⟩ | ⟨-, h⟩ <;> rw [h] at hpc <;>
        rcases hpc with h | h <;> cases h
    | reap hpc₀ =>
      have hpc : s.pc = .setup ∨ s.pc = .notify .first := hpc
      rw [hpc₀] at hpc
      rcases hpc with h | h <;> cases h
    | reapUnknown => exact ih hpc
    | exitTest =>
      have hpc : afterBatch s = .setup ∨ afterBatch s = .notify .first := hpc
      rcases afterBatch_cases s with ⟨-, -, h⟩ | ⟨-, h⟩ | ⟨-, h⟩ <;> rw [h] at hpc <;>
        rcases hpc with h | h <;> cases h
    | act => exact ih hpc
    | @signal n =>
      rcases deliver_cases H n s with ⟨p, hd⟩ | ⟨-, -, hd⟩
      · rw [hd] at hpc ⊢
        exact ih hpc
      · rw [hd] at hpc
        rcases hpc with h | h <;> cases h

/-- Nothing ends inside of a call. -/
theorem Call.stateOf_running {site : Site} {done todo : List Ref} (h : Call H site t post u done todo)
    {q : Ref} (hmem : q ∈ t.handler.allObjs) (hq : (notifyAll t).stateOf q = some .running) :
    u.stateOf q = some .running := by
  rw [h.all] at hmem
  rcases List.mem_append.mp hmem with hd | hd
  · have := h.turned q hd
    rw [hq] at this
    generalize u.stateOf q = b at this ⊢
    cases this
    rfl
  · rw [Sys.stateOf, h.waiting q hd]
    exact hq

/-! ### Where a fork comes from -/

/-- **A fork** is in a call, and its process was released by the notifications
of that call, or it was ready from the start and the call is the first. -/
theorem fork_cases (h : Runs H progs pre t) {r : Ref} (hs : step H t l = some t') (hf : forkOf H t l = some r) :
    ∃ pre₀ t₀ post₀ site done todo p₀, pre = pre₀ ++ (t₀, .notify) :: post₀ ∧ Runs H progs pre₀ t₀ ∧
      Call H site t₀ post₀ t done (r :: todo) ∧ (boot H progs).objs[r]? = some p₀ ∧
      ((p₀.state = .ready ∧ t₀.objs = (boot H progs).objs) ∨
        (p₀.state = .blocked ∧ ∀ c ∈ p₀.conditions, t₀.stateOf c.1 = some c.2)) := by
  have hw := boot_wellFormed H progs
  obtain ⟨c, site, todo, p, rfl, hpc, hp, hr, hn, -⟩ := forkOf_eq_some hf
  obtain ⟨pre₀, t₀, post₀, done, rfl, h₀, hcall⟩ := run_call h hpc
  have hi := run_ids h₀
  have hwait := hcall.waiting r (by simp)
  obtain ⟨b, hb, hfixb⟩ := (run_ids h).get hp
  obtain ⟨p₀, hp₀, hfix₀⟩ := hi.get' hb
  refine ⟨pre₀, t₀, post₀, site, done, todo, b, rfl, h₀, hcall, hb, ?_⟩
  have hst : (notifyAll t₀).stateOf r = some .ready := by
    rw [Sys.stateOf, ← hwait]
    exact (Sys.stateOf_eq hp).trans (congrArg some hr)
  rw [notified_stateOf hw hi hp₀, Option.some.injEq] at hst
  by_cases hm : p₀.state = .blocked ∧ met t₀.objs t₀.handler.objForId p₀
  · refine Or.inr ⟨not_blocked_stays h₀ hb hp₀ hm.1, ?_⟩
    rw [← ChildProcess.conditions_of_fixed hfix₀]
    exact (met_iff hw hi hp₀).mp hm.2
  · rw [if_neg hm] at hst
    have hname : p₀.name ∉ t₀.loggers := fun hin => hn (by
      rw [ChildProcess.name_of_fixed hfixb, ← ChildProcess.name_of_fixed hfix₀]
      exact hcall.loggers hin)
    have hsite : t₀.pc = .notify .first := by
      have hpc₀ := hcall.begins
      cases site with
      | first => exact hpc₀
      | head | tail => exact absurd (logged_of_ready h₀ (by rw [hpc₀]; rfl) hp₀ hst) hname
    have hobjs := objs_of_first h₀ (Or.inr hsite)
    rw [hobjs, hb, Option.some.injEq] at hp₀
    exact Or.inl ⟨hp₀ ▸ hst, hobjs⟩

/-- **Conditions hold at the fork.** When a process that registration left
blocked is forked, all its conditions hold at that moment. -/
theorem conditions_at_fork (h : Runs H progs tr s) :
    ∀ pre t l post r, tr = pre ++ (t, l) :: post → forkOf H t l = some r →
      ∀ p₀ p, (boot H progs).objs[r]? = some p₀ → p₀.state = .blocked → t.objs[r]? = some p →
        ∀ c ∈ p.conditions, t.stateOf c.1 = some c.2 := by
  rintro pre t l post r rfl hf p₀ p hp₀ hb hp c hc
  have hw := boot_wellFormed H progs
  obtain ⟨hpre, t', hs, -⟩ := h.split
  obtain ⟨pre₀, t₀, post₀, site, done, todo, b, rfl, h₀, hcall, hb₀, hcase⟩ := fork_cases hpre hs hf
  rw [hp₀, Option.some.injEq] at hb₀
  subst hb₀
  have hmet : ∀ c ∈ p₀.conditions, t₀.stateOf c.1 = some c.2 := by
    rcases hcase with ⟨hr, -⟩ | ⟨-, hm⟩
    · rw [hb] at hr
      cases hr
    · exact hm
  obtain ⟨q, hq, hfix⟩ := (run_ids hpre).get hp
  rw [hp₀, Option.some.injEq] at hq
  subst hq
  rw [ChildProcess.conditions_of_fixed hfix] at hc
  have hst := hmet c hc
  have hvis : t₀ ∈ visited (pre₀ ++ (t₀, Label.notify) :: post₀) t := by simp [visited]
  rcases hw.sensible r p₀ hp₀ c hc with hrun | hdone
  · -- nothing is reaped between the notifications and the fork
    rw [hrun] at hst ⊢
    obtain ⟨q, hq, hqs⟩ := Sys.stateOf_eq_some.mp hst
    have hi := run_ids h₀
    refine hcall.stateOf_running ?_ ?_
    · rw [hi.allObjs, List.mem_range]
      exact hi.lt_of_get hq
    · rw [notified_stateOf hw hi hq, hqs]
      simp
  · rw [hdone] at hst ⊢
    exact done_stays hpre hvis hst

/-- `b`'s turn in the call after `a` was reaped. -/
def turnOfB : List Label := aDone ++ [.notify, .start (startOk 20 101)]

theorem turnOfB_possible : (exec (step bareHost) (boot bareHost chainAB) turnOfB).isSome = true := by decide

theorem bForked_possible : (exec (step bareHost) (boot bareHost chainAB)
    (turnOfB ++ [.start (startOk 20 101)])).isSome = true := by decide

theorem conditions_at_fork_chainAB :
    ((exec (step bareHost) (boot bareHost chainAB) turnOfB).get turnOfB_possible).stateOf 0 = some .done :=
  conditions_at_fork (Run.of_isSome bForked_possible) _ _ (.start (startOk 20 101)) _ 1
    (trace_append _ (Option.some_get turnOfB_possible).symm) (by decide)
    ((boot bareHost chainAB).objs.get ⟨1, by decide⟩)
    (((exec (step bareHost) (boot bareHost chainAB) turnOfB).get turnOfB_possible).objs.get ⟨1, by decide⟩)
    (by decide) (by decide) (by decide) (0, .done) (by decide)

/-! ### The dependencies -/

/-- The programs `r` is to be started after have been started: a oneshot is
done, a simple program has been running. -/
def DependenciesStarted (progs : List Program) (pre : List (Sys × Label)) (t : Sys) (r : Ref) : Prop :=
  ∀ (g : Program) (q : Ref) (g' : Program), progs[r]? = some g → progs[q]? = some g' → g.WaitsFor g' →
    (g'.kind = .oneshot → t.stateOf q = some .done) ∧
    (g'.kind = .simple → ∃ v ∈ visited pre t, v.stateOf q = some .running)

/-- Registration has put down the dependencies of the entry at `r` as they are
meant: if it has any, one of them is declared by the entry itself or by one
before it, and a oneshot that a simple program waits for declares that itself,
and first. -/
def DependenciesDeclared (progs : List Program) (r : Ref) : Prop :=
  ∀ g, progs[r]? = some g →
    ((∃ (q : Ref) (g' : Program), progs[q]? = some g' ∧ g.WaitsFor g') →
      ∃ (q : Ref) (g' : Program), progs[q]? = some g' ∧ (g'.name ∈ g.after ∨ (q ≤ r ∧ g.name ∈ g'.before))) ∧
    ∀ (q : Ref) (g' : Program), progs[q]? = some g' → g.WaitsFor g' → g.kind = .simple → g'.kind = .oneshot →
      g.name ∈ g'.before ∧ (q ≤ r ∨ g'.name ∉ g.after)

theorem Program.kind_cases (g : Program) : (g.kind = .oneshot ∧ g.startedAs = .done) ∨
    (g.kind = .simple ∧ g.startedAs = .running) := by
  unfold Program.startedAs
  cases h : g.kind
  · exact Or.inl ⟨rfl, rfl⟩
  · exact Or.inr ⟨rfl, rfl⟩

/-- Before the first turn of a process that was ready from the start, nothing
that comes after it in the list has been started. -/
theorem not_ran_of_ready (h : Runs H progs pre₀ t) (hobjs : t.objs = (boot H progs).objs) {site : Site}
    {done todo : List Ref} {r q : ℕ} (hcall : Call H site t post u done (r :: todo))
    (hu : Runs H progs pre u) (hlt : r < q) (hq : q < progs.length) :
    ∀ v ∈ visited pre u, v.stateOf q ≠ some .running := by
  intro v hv hrun
  have hw := boot_wellFormed H progs
  have hi := run_ids h
  have hall := hcall.all
  rw [hi.allObjs, boot_length] at hall
  have hmem : q ∈ r :: todo := by
    have : q ∈ done ++ r :: todo := hall ▸ List.mem_range.mpr hq
    refine (List.mem_append.mp this).resolve_left fun hd => ?_
    have := (mem_of_range_eq hall).mp hd
    omega
  obtain ⟨b, hb⟩ : ∃ b, (boot H progs).objs[q]? = some b :=
    ⟨_, List.getElem?_eq_getElem (by rw [boot_length]; exact hq)⟩
  have hnot : u.stateOf q = some .blocked ∨ u.stateOf q = some .ready := by
    rw [Sys.stateOf, hcall.waiting q hmem]
    show (notifyAll t).stateOf q = _ ∨ (notifyAll t).stateOf q = _
    rw [notified_stateOf hw hi (hobjs ▸ hb)]
    rcases hw.state q b hb with hs | hs <;> split_ifs <;> simp [hs]
  obtain ⟨st, hst, hs⟩ := stateOf_stays Supervisor.started_of_moves hu hv hrun (Or.inl rfl)
  rcases hnot with hn | hn <;> rw [hn, Option.some.injEq] at hst <;> subst hst <;>
    rcases hs with h | h | h <;> cases h

/-- A started dependency has been running. -/
theorem DependenciesStarted.ran (hst : DependenciesStarted progs pre t r) (h : Runs H progs pre t)
    {g g' : Program} {q : ℕ} (hg : progs[r]? = some g) (hg' : progs[q]? = some g') (hw : g.WaitsFor g') :
    ∃ v ∈ visited pre t, v.stateOf q = some .running := by
  obtain ⟨h1, h2⟩ := hst g q g' hg hg' hw
  rcases g'.kind_cases with ⟨hk, -⟩ | ⟨hk, -⟩
  · exact ran_of_stateOf h (h1 hk) (Or.inr (Or.inl rfl))
  · exact h2 hk

/-- Forked in the first call, with nothing that comes later started: both say
that it waits for nothing. -/
theorem started_iff_of_ready (h : Runs H progs pre t) {g : Program} (hg : progs[r]? = some g)
    (hno : ¬ ∃ (q : Ref) (g' : Program), progs[q]? = some g' ∧
      (g'.name ∈ g.after ∨ (q ≤ r ∧ g.name ∈ g'.before)))
    (hlater : ∀ q : ℕ, r < q → q < progs.length → ∀ v ∈ visited pre t, v.stateOf q ≠ some .running) :
    DependenciesStarted progs pre t r ↔ DependenciesDeclared progs r := by
  constructor
  · intro hst
    have hnone : ∀ (q : Ref) (g' : Program), progs[q]? = some g' → ¬ g.WaitsFor g' := by
      intro q g' hg' hw
      have hlt : r < q := by
        by_contra hle
        refine hno ⟨q, g', hg', ?_⟩
        rcases hw with ha | hb
        · exact Or.inl ha
        · exact Or.inr ⟨Nat.le_of_not_lt hle, hb⟩
      obtain ⟨v, hv, hrun⟩ := hst.ran h hg hg' hw
      exact hlater q hlt (List.getElem?_eq_some_iff.mp hg').1 v hv hrun
    intro g₁ hg₁
    rw [hg, Option.some.injEq] at hg₁
    subst hg₁
    refine ⟨?_, fun q g' hg' hw => absurd hw (hnone q g' hg')⟩
    rintro ⟨q, g', hg', hw⟩
    exact absurd hw (hnone q g' hg')
  · intro hdecl g₁ q g' hg₁ hg' hw
    rw [hg, Option.some.injEq] at hg₁
    subst hg₁
    exact absurd ((hdecl g hg).1 ⟨q, g', hg', hw⟩) hno

/-- Released in a state `t₀` of the run in which what registration put down
held: it is right in `t` where registration was. -/
theorem started_iff_of_released (h : Runs H progs pre t) {t₀ : Sys} (hv : t₀ ∈ visited pre t)
    {pre₀ : List (Sys × Label)} (h₀ : Runs H progs pre₀ t₀) (hsub : visited pre₀ t₀ ⊆ visited pre t)
    (hstay : ∀ q, t₀.stateOf q = some .running → t.stateOf q = some .running) {g : Program}
    (hg : progs[r]? = some g)
    (hearly : ∃ (q : Ref) (g' : Program), progs[q]? = some g' ∧
      (g'.name ∈ g.after ∨ (q ≤ r ∧ g.name ∈ g'.before)))
    (hcond : ∀ (q : Ref) (g' : Program), progs[q]? = some g' → g.WaitsFor g' → t₀.stateOf q =
      some (if g.name ∈ g'.before ∧ (q ≤ r ∨ g'.name ∉ g.after) then g'.startedAs else g.startedAs)) :
    DependenciesStarted progs pre t r ↔ DependenciesDeclared progs r := by
  constructor
  · intro hst g₁ hg₁
    rw [hg, Option.some.injEq] at hg₁
    subst hg₁
    refine ⟨fun _ => hearly, fun q g' hg' hw hk hk' => ?_⟩
    by_contra hn
    have hrun := hcond q g' hg' hw
    rw [if_neg hn, show g.startedAs = .running by simp [Program.startedAs, hk]] at hrun
    have hdone := (hst g q g' hg hg' hw).1 hk'
    rw [hstay q hrun] at hdone
    cases hdone
  · intro hdecl g₁ q g' hg₁ hg' hw
    rw [hg, Option.some.injEq] at hg₁
    subst hg₁
    have hq := hcond q g' hg' hw
    constructor
    · intro hk
      have hdone : g'.startedAs = .done := by simp [Program.startedAs, hk]
      suffices ht : t₀.stateOf q = some .done from done_stays h hv ht
      rw [hdone] at hq
      rcases g.kind_cases with ⟨-, hs⟩ | ⟨hk', -⟩
      · rw [hq, hs]
        split <;> rfl
      · rw [hq, if_pos ((hdecl g hg).2 q g' hg' hw hk' hk)]
    · intro hk
      have hrun : g'.startedAs = .running := by simp [Program.startedAs, hk]
      rw [hrun] at hq
      rcases g.kind_cases with ⟨-, hs⟩ | ⟨-, hs⟩ <;> rw [hs] at hq
      · by_cases hb : g.name ∈ g'.before ∧ (q ≤ r ∨ g'.name ∉ g.after)
        · rw [if_pos hb] at hq
          exact ⟨t₀, hv, hq⟩
        · rw [if_neg hb] at hq
          obtain ⟨v, hv', hvr⟩ := ran_of_stateOf h₀ hq (Or.inr (Or.inl rfl))
          exact ⟨v, hsub hv', hvr⟩
      · rw [ite_self] at hq
        exact ⟨t₀, hv, hq⟩

/-- **Dependency safety.** At a fork the dependencies are started if and only if
the entries declare them right. -/
theorem started_iff_declared (h : Runs H progs tr s) :
    ∀ pre t l post r, tr = pre ++ (t, l) :: post → forkOf H t l = some r →
      (DependenciesStarted progs pre t r ↔ DependenciesDeclared progs r) := by
  rintro pre t l post r rfl hf
  obtain ⟨hpre, t', hs, -⟩ := h.split
  obtain ⟨pre₀, t₀, post₀, site, done, todo, p₀, rfl, h₀, hcall, hp₀, hcase⟩ := fork_cases hpre hs hf
  have hw := boot_wellFormed H progs
  have hi := run_ids h₀
  have hlt : r < progs.length := by
    rw [← boot_length H progs]
    exact (List.getElem?_eq_some_iff.mp hp₀).1
  obtain ⟨g, hg⟩ : ∃ g, progs[r]? = some g := ⟨_, List.getElem?_eq_getElem hlt⟩
  have hready := boot_ready_iff hp₀ hg
  rcases hcase with ⟨hrp, hobjs⟩ | ⟨hbp, hmet⟩
  · exact started_iff_of_ready hpre hg (hready.mp hrp)
      fun q hrq hq => not_ran_of_ready h₀ hobjs hcall hpre hrq hq
  · have hearly : ∃ (q : Ref) (g' : Program), progs[q]? = some g' ∧
        (g'.name ∈ g.after ∨ (q ≤ r ∧ g.name ∈ g'.before)) := by
      by_contra hno
      rw [hready.mpr hno] at hbp
      cases hbp
    refine started_iff_of_released hpre (by simp [visited]) h₀ (fun v hv => ?_) (fun q hq => ?_) hg hearly
      fun q g' hg' hwait => hmet (q, _) ((boot_condition_iff hp₀ hg hg').mpr ⟨hwait, rfl⟩)
    · rcases mem_visited.mp hv with ⟨l, hl⟩ | rfl
      · exact mem_visited.mpr (Or.inl ⟨l, List.mem_append_left _ hl⟩)
      · simp [visited]
    · obtain ⟨b, hb, hst⟩ := Sys.stateOf_eq_some.mp hq
      refine hcall.stateOf_running ?_ ?_
      · rw [hi.allObjs, List.mem_range]
        exact hi.lt_of_get hb
      · rw [notified_stateOf hw hi hb, hst]
        simp

/-! ### A program that is started early -/

/-- The first call starts `b`; the second one finds it running and starts `a`. -/
def startedEarly : List Label :=
  [.setup setupOk, .notify, .start (startOk 10 100), .start (startOk 20 101), .started,
    .notify, .start (startOk 20 101)]

theorem startedEarly_possible :
    (exec (step bareHost) (boot bareHost simpleAfterOneshot) startedEarly).isSome = true := by decide

theorem thenStarted_possible : (exec (step bareHost) (boot bareHost simpleAfterOneshot)
    (startedEarly ++ [.start (startOk 20 101)])).isSome = true := by decide

theorem started_iff_declared_early : DependenciesStarted simpleAfterOneshot
    (trace (step bareHost) (boot bareHost simpleAfterOneshot) startedEarly)
    ((exec (step bareHost) (boot bareHost simpleAfterOneshot) startedEarly).get startedEarly_possible) 1 ↔
      DependenciesDeclared simpleAfterOneshot 1 :=
  started_iff_declared (Run.of_isSome thenStarted_possible) _ _ (.start (startOk 20 101)) _ 1
    (trace_append _ (Option.some_get startedEarly_possible).symm) (by decide)

/-- Dependencies are not started at every fork: `a` is forked while `b` runs. -/
theorem started_early : ¬ ∀ (H : Host) (progs : List Program) (tr : List (Sys × Label)) (s : Sys),
    Runs H progs tr s → ∀ pre t l post r, tr = pre ++ (t, l) :: post → forkOf H t l = some r →
      DependenciesStarted progs pre t r := by
  intro hall
  have hst := hall bareHost simpleAfterOneshot _ _ (Run.of_isSome thenStarted_possible) _ _
    (.start (startOk 20 101)) _ 1 (trace_append _ (Option.some_get startedEarly_possible).symm) (by decide)
  have hdone := (hst (plain 'a' "simple" [] ['b']) 0 (plain 'b' "oneshot" [] []) rfl rfl
    (Or.inl (by decide))).1 (by decide)
  revert hdone
  decide

end Scinit
