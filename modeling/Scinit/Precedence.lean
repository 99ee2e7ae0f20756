/-
# The order of the starts

An entry that registration leaves blocked waits for every entry that either of
the two declared. None of them is in the state waited for before it was forked,
so each start comes after the starts of all that the process waits for, directly
or through others. A cycle of such entries is never entered: nothing in it, and
nothing that waits for it, ever leaves BLOCKED. (A cycle of declarations in which
registration leaves an entry READY is entered there.) The same goes for what waits
for a process to be done that has crashed.

Key definitions: `Awaits`, `AwaitsIn`.
Key theorems: `awaits_iff`, `forks_precede`, `forked_before`, `blocked_of_cycle`,
`blocked_of_crashed`.
-/
import Scinit.Dependency
import Scinit.Lib.Precedence

namespace Scinit

open Transition

variable {H : Host} {progs : List Program} {tr pre post : List (Sys × Label)} {s t : Sys} {r q : Ref}

/-- The entry `r` waits for the entry `q`, and is held back: an entry that is
alone with its declarations up to its own turn is ready whatever is declared later. -/
def Awaits (progs : List Program) (r q : Ref) : Prop :=
  ∃ g g', progs[r]? = some g ∧ progs[q]? = some g' ∧ g.WaitsFor g' ∧
    ∃ (q' : Ref) (g'' : Program), progs[q']? = some g'' ∧ (g''.name ∈ g.after ∨ (q' ≤ r ∧ g.name ∈ g''.before))

/-- A process awaits another where it is declared to and registration left it BLOCKED. -/
theorem awaits_iff (H : Host) : Awaits progs r q ↔
    (∃ g g', progs[r]? = some g ∧ progs[q]? = some g' ∧ g.WaitsFor g') ∧
      (boot H progs).stateOf r = some .blocked := by
  have hblocked : ∀ {g : Program}, progs[r]? = some g → ((boot H progs).stateOf r = some .blocked ↔
      ∃ (q' : Ref) (g'' : Program), progs[q']? = some g'' ∧ (g''.name ∈ g.after ∨ (q' ≤ r ∧ g.name ∈ g''.before))) := by
    intro g hg
    have hlt : r < (boot H progs).objs.length := by
      rw [boot_length]
      exact (List.getElem?_eq_some_iff.mp hg).1
    obtain ⟨p₀, hp₀⟩ : ∃ p₀, (boot H progs).objs[r]? = some p₀ := ⟨_, List.getElem?_eq_getElem hlt⟩
    have hready := boot_ready_iff hp₀ hg
    rw [Sys.stateOf_eq hp₀, Option.some.injEq]
    rcases (boot_wellFormed H progs).state r p₀ hp₀ with hb | hr
    · exact iff_of_true hb (not_not.mp fun hno => by rw [hready.mpr hno] at hb; cases hb)
    · exact iff_of_false (fun hb => by rw [hr] at hb; cases hb) (hready.mp hr)
  constructor
  · rintro ⟨g, g', hg, hg', hwaits, hearly⟩
    exact ⟨⟨g, g', hg, hg', hwaits⟩, (hblocked hg).mpr hearly⟩
  · rintro ⟨⟨g, g', hg, hg', hwaits⟩, hb⟩
    exact ⟨g, g', hg, hg', hwaits, (hblocked hg).mp hb⟩

/-- What is awaited is a condition of a process that registration left blocked. -/
theorem Awaits.condition (h : Awaits progs r q) (H : Host) : ∃ p₀ st, (boot H progs).objs[r]? = some p₀ ∧
    p₀.state = .blocked ∧ (q, st) ∈ p₀.conditions ∧ Supervisor.Started st := by
  obtain ⟨⟨g, g', hg, hg', hwaits⟩, hb⟩ := (awaits_iff H).mp h
  obtain ⟨p₀, hp₀, hb⟩ := Sys.stateOf_eq_some.mp hb
  have hcond := (boot_condition_iff hp₀ hg hg').mpr ⟨hwaits, rfl⟩
  refine ⟨p₀, _, hp₀, hb, hcond, ?_⟩
  rcases (boot_wellFormed H progs).sensible r p₀ hp₀ _ hcond with h | h
  · exact Or.inl h
  · exact Or.inr (Or.inl h)

/-- A process in a state that others wait for was forked. -/
theorem happened_of_started (h : Runs H progs tr s) {st : ProcessState} (hq : s.stateOf q = some st)
    (hst : Supervisor.Started st) : Happened (forkOf H) tr q := by
  obtain ⟨p, hp, rfl⟩ := Sys.stateOf_eq_some.mp hq
  have hstarted : p.started := by
    rcases hst with h | h | h <;> rw [ChildProcess.started, h] <;> decide
  obtain ⟨t, c, hm, hf, -⟩ := started_forked h hp hstarted
  exact ⟨_, hm, hf⟩

/-- A fork comes after the forks of all that its process awaits. -/
theorem forks_precede (H : Host) (progs : List Program) :
    Precedes (step H) (boot H progs) (forkOf H) (Awaits progs) := by
  intro tr s l s' h hs r q hf hrq
  obtain ⟨p₀, st, hp₀, hb, hcond, hst⟩ := hrq.condition H
  obtain ⟨pre₀, t₀, post₀, site, done, todo, p₁, rfl, h₀, -, hp₁, hcases⟩ := fork_cases h hs hf
  rw [hp₀, Option.some.injEq] at hp₁
  subst hp₁
  rcases hcases with ⟨hready, -⟩ | ⟨-, hheld⟩
  · rw [hb] at hready
    cases hready
  · exact (happened_of_started h₀ (hheld _ hcond) hst).mono (List.subset_append_left _ _)

/-- **The starts keep the order of the dependencies**: a process is forked after
every process that it awaits, through any number of others. -/
theorem forked_before (h : Runs H progs tr s) : ∀ pre t l post r q, tr = pre ++ (t, l) :: post →
    forkOf H t l = some r → Relation.TransGen (Awaits progs) r q →
    ∃ e ∈ pre, forkOf H e.1 e.2 = some q := by
  rintro pre t l post r q rfl hf hrq
  obtain ⟨hpre, t', hs, -⟩ := h.split
  exact (forks_precede H progs).transGen pre t l t' hpre hs r q hf hrq

theorem awaits_qr : Awaits chainRQP 1 0 :=
  ⟨plain 'q' "simple" [] ['r'], plain 'r' "simple" [] [], rfl, rfl, Or.inl (by decide), 0,
    plain 'r' "simple" [] [], rfl, Or.inl (by decide)⟩

theorem awaits_pq : Awaits chainRQP 2 1 :=
  ⟨plain 'p' "simple" [] ['q'], plain 'q' "simple" [] ['r'], rfl, rfl, Or.inl (by decide), 1,
    plain 'q' "simple" [] ['r'], rfl, Or.inl (by decide)⟩

/-- `r`, `q` and `p` are started, one in each call. -/
def turnOfP : List Label :=
  [.setup setupOk,
    .notify, .start (startOk 10 100), .start (startOk 20 101), .start (startOk 20 101), .started,
    .notify, .start (startOk 20 101), .start (startOk 20 101), .start (startOk 30 102), .started,
    .epollWait [], .reaped, .exitTest, .notify, .start (startOk 30 102), .start (startOk 30 102)]

theorem turnOfP_possible : (exec (step bareHost) (boot bareHost chainRQP) turnOfP).isSome = true := by decide

theorem pForked_possible : (exec (step bareHost) (boot bareHost chainRQP)
    (turnOfP ++ [.start (startOk 30 102)])).isSome = true := by decide

theorem forked_before_chainRQP : ∃ e ∈ trace (step bareHost) (boot bareHost chainRQP) turnOfP,
    forkOf bareHost e.1 e.2 = some 0 :=
  forked_before (Run.of_isSome pForked_possible) _ _ (.start (startOk 30 102)) _ 2 0
    (trace_append _ (Option.some_get turnOfP_possible).symm) (by decide) (.tail (.single awaits_pq) awaits_qr)

/-- A process that was released had all its conditions met at some time. -/
theorem met_of_released (h : Runs H progs tr s) {p₀ : ChildProcess} (hp₀ : (boot H progs).objs[r]? = some p₀)
    (hb : p₀.state = .blocked) (hr : s.stateOf r ≠ some .blocked) :
    ∃ t ∈ visited tr s, ∀ c ∈ p₀.conditions, t.stateOf c.1 = some c.2 := by
  have hi := run_ids h
  have hw := boot_wellFormed H progs
  have hlt : r < (boot H progs).objs.length := (List.getElem?_eq_some_iff.mp hp₀).1
  have h0 : statesOf _ (boot H progs) ⟨r, hlt⟩ = .blocked := (statesOf_eq (i := ⟨r, hlt⟩) hp₀).trans hb
  have hend : statesOf _ s ⟨r, hlt⟩ ≠ .blocked := fun he => hr ((statesOf_iff hi.length ⟨r, hlt⟩ _).mp he)
  obtain ⟨v, hv, -, hheld⟩ := Supervisor.held_of_released (run_refines h) h0 hend
  rw [visited_map, List.mem_map] at hv
  obtain ⟨t, ht, rfl⟩ := hv
  obtain ⟨pre, post, -, hpre, -⟩ := h.prefix_of_visited ht
  refine ⟨t, ht, fun c hc => ?_⟩
  have hq := hheld (⟨c.1, hw.known r p₀ hp₀ c hc⟩, c.2) ⟨p₀, hp₀, hc⟩
  rwa [statesOf_iff (run_ids hpre).length] at hq

/-- A process that was released had all it awaits forked before. -/
theorem happened_of_released (h : Runs H progs tr s) (hrq : Awaits progs r q) (hr : s.stateOf r ≠ some .blocked) :
    Happened (forkOf H) tr q := by
  obtain ⟨p₀, st, hp₀, hb, hcond, hst⟩ := hrq.condition H
  obtain ⟨t, ht, hmet⟩ := met_of_released h hp₀ hb hr
  obtain ⟨pre, post, rfl, hpre, -⟩ := h.prefix_of_visited ht
  exact (happened_of_started hpre (hmet _ hcond) hst).mono (List.subset_append_left _ _)

/-- What awaits a process that was never forked is blocked, also through others. -/
theorem blocked_of_not_happened (h : Runs H progs tr s) (hq : ¬ Happened (forkOf H) tr q)
    (hrq : Relation.TransGen (Awaits progs) r q) : s.stateOf r = some .blocked := by
  by_contra hr
  obtain ⟨q₁, hrq₁, hq₁⟩ := Relation.TransGen.head'_iff.mp hrq
  have hfork := happened_of_released h hrq₁ hr
  rcases Relation.reflTransGen_iff_eq_or_transGen.mp hq₁ with rfl | hq₁
  · exact hq hfork
  · exact hq ((forks_precede H progs).transGen.happened h hfork hq₁)

/-- **A cycle of processes that registration left BLOCKED is never entered**: what awaits
itself through others, and what awaits such a process, is blocked in every state and
never forked. -/
theorem blocked_of_cycle (h : Runs H progs tr s) (hrq : Relation.ReflTransGen (Awaits progs) r q)
    (hqq : Relation.TransGen (Awaits progs) q q) :
    s.stateOf r = some .blocked ∧ ∀ e ∈ tr, forkOf H e.1 e.2 ≠ some r := by
  have hnever := forks_precede H progs
  refine ⟨blocked_of_not_happened h (hnever.not_happened h .refl hqq) ?_, fun e he hf =>
    hnever.not_happened h hrq hqq ⟨e, he, hf⟩⟩
  rcases Relation.reflTransGen_iff_eq_or_transGen.mp hrq with rfl | hrq
  · exact hqq
  · exact hrq.trans hqq

/-- `a` and `b` are each to be started after the other. -/
def cycleAB : List Program := [plain 'a' "simple" [] ['b'], plain 'b' "simple" [] ['a']]

theorem awaits_ab : Awaits cycleAB 0 1 :=
  ⟨plain 'a' "simple" [] ['b'], plain 'b' "simple" [] ['a'], rfl, rfl, Or.inl (by decide), 1,
    plain 'b' "simple" [] ['a'], rfl, Or.inl (by decide)⟩

theorem awaits_ba : Awaits cycleAB 1 0 :=
  ⟨plain 'b' "simple" [] ['a'], plain 'a' "simple" [] ['b'], rfl, rfl, Or.inl (by decide), 0,
    plain 'a' "simple" [] ['b'], rfl, Or.inl (by decide)⟩

/-- No turn of the two starts anything, and the event loop returns. -/
def noTurnStarts : List Label :=
  [.setup setupOk, .notify, .start (startOk 10 100), .start (startOk 10 100), .started,
    .notify, .start (startOk 10 100), .start (startOk 10 100), .started, .epollWait [], .reaped, .exitTest,
    .notify, .start (startOk 10 100), .start (startOk 10 100), .started]

theorem noTurnStarts_possible : (exec (step bareHost) (boot bareHost cycleAB) noTurnStarts).isSome = true := by
  decide

theorem blocked_of_cycle_cycleAB : ((exec (step bareHost) (boot bareHost cycleAB) noTurnStarts).get
    noTurnStarts_possible).stateOf 0 = some .blocked :=
  (blocked_of_cycle (Run.of_isSome noTurnStarts_possible) .refl (.tail (.single awaits_ab) awaits_ba)).1

/-- `a` and `b` are each to be started before the other, but `a` is left READY, as `b`
declares it only after its turn. -/
def eachBefore : List Program := [plain 'a' "simple" ['b'] [], plain 'b' "simple" ['a'] []]

/-- So `a` is started, and `b` in the next call. -/
example : ((exec (step bareHost) (boot bareHost eachBefore)
    [.setup setupOk, .notify, .start (startOk 10 100), .start (startOk 20 101), .started,
      .notify, .start (startOk 20 101), .start (startOk 20 101)]).map fun s => [s.stateOf 0, s.stateOf 1]) =
    some [some .running, some .running] := by decide

/-! ### What a crash leaves behind -/

/-- What `r` waits for is that `q` is in the state `st`, that of the entry that declares it. -/
def AwaitsIn (progs : List Program) (st : ProcessState) (r q : Ref) : Prop :=
  Awaits progs r q ∧ ∀ g g', progs[r]? = some g → progs[q]? = some g' →
    st = if g.name ∈ g'.before ∧ (q ≤ r ∨ g'.name ∉ g.after) then g'.startedAs else g.startedAs

theorem AwaitsIn.condition {st : ProcessState} (h : AwaitsIn progs st r q) (H : Host) :
    ∃ p₀, (boot H progs).objs[r]? = some p₀ ∧ p₀.state = .blocked ∧ (q, st) ∈ p₀.conditions := by
  obtain ⟨p₀, _, hp₀, hb, -, -⟩ := h.1.condition H
  obtain ⟨g, g', hg, hg', hwaits, -⟩ := h.1
  exact ⟨p₀, hp₀, hb, (boot_condition_iff hp₀ hg hg').mpr ⟨hwaits, h.2 g g' hg hg'⟩⟩

/-- A process is forked when it is ready, so one that is blocked was not forked. -/
theorem not_happened_of_blocked (h : Runs H progs tr s) (hb : s.stateOf r = some .blocked) :
    ¬ Happened (forkOf H) tr r := by
  intro hf
  obtain ⟨pre, t, l, post, t', rfl, hpre, hs, hf⟩ := hf.before h
  obtain ⟨c, site, todo, p, -, -, hp, hready, -⟩ := forkOf_eq_some hf
  have hv : t ∈ visited (pre ++ (t, l) :: post) s := mem_visited.mpr (Or.inl ⟨l, by simp⟩)
  obtain ⟨b, hb', hne⟩ := stateOf_stays (P := (· ≠ .blocked)) (fun hm _ he => by subst he; cases hm) h hv
    (Sys.stateOf_eq hp) (by rw [hready]; decide)
  rw [hb, Option.some.injEq] at hb'
  exact hne hb'.symm

/-- **A crash is not passed over**: what waits for a crashed process to be done, and what
waits for that through others, is blocked then and later, and never forked. -/
theorem blocked_of_crashed {post : List (Sys × Label)} (hpre : Runs H progs pre t)
    (hq : t.stateOf q = some .crashed) (hpost : Run (step H) t post s) {r₀ : Ref}
    (hr₀ : AwaitsIn progs .done r₀ q) (hrr₀ : Relation.ReflTransGen (Awaits progs) r r₀) :
    s.stateOf r = some .blocked ∧ ∀ e ∈ pre ++ post, forkOf H e.1 e.2 ≠ some r := by
  have h : Runs H progs (pre ++ post) s := hpre.trans hpost
  have hv : t ∈ visited (pre ++ post) s := by
    rw [visited_append]
    exact List.mem_append_right _ hpost.start_mem_visited
  obtain ⟨_, hq, rfl⟩ := stateOf_stays (P := (· = .crashed)) (fun hm he => by subst he; cases hm) h hv hq rfl
  -- had it been released, the crashed process would have been done, and would still be
  have hb₀ : s.stateOf r₀ = some .blocked := by
    by_contra hne
    obtain ⟨p₀, hp₀, hb, hcond⟩ := hr₀.condition H
    obtain ⟨t, ht, hmet⟩ := met_of_released h hp₀ hb hne
    obtain ⟨st, hst, rfl⟩ := stateOf_stays (P := (· = .done)) (fun hm he => by subst he; cases hm) h ht
      (hmet _ hcond) rfl
    rw [hq] at hst
    cases hst
  have hb : s.stateOf r = some .blocked := by
    rcases Relation.reflTransGen_iff_eq_or_transGen.mp hrr₀ with rfl | hrr₀
    · exact hb₀
    · exact blocked_of_not_happened h (not_happened_of_blocked h hb₀) hrr₀
  exact ⟨hb, fun e he hf => not_happened_of_blocked h hb ⟨e, he, hf⟩⟩

theorem awaitsDone_chainAB : AwaitsIn chainAB .done 1 0 := by
  refine ⟨⟨plain 'b' "oneshot" [] ['a'], plain 'a' "oneshot" [] [], rfl, rfl, Or.inl (by decide), 0,
    plain 'a' "oneshot" [] [], rfl, Or.inl (by decide)⟩, fun g g' hg hg' => ?_⟩
  obtain rfl := Option.some.inj hg
  obtain rfl := Option.some.inj hg'
  decide

theorem blocked_of_crashed_crashA : ((exec (step bareHost) (boot bareHost chainAB) crashA).get
    crashA_possible).stateOf 1 = some .blocked :=
  (blocked_of_crashed (Run.of_isSome crashA_possible) (by decide) .refl awaitsDone_chainAB .refl).1

end Scinit
