/-
# The order of starts and finishes

A program that waits for another to be done is released after that one has
finished; one that waits for another to be running is released before it finishes.
In a run in which every program gets done, what comes before a start or a finish
that way has passed when it passes, so none comes before itself
(`acyclic_of_all_done`). Each program was forked too, with a name that no other has
(`names_nodup_of_all_done`).

Key definitions: `Before`, `Passed`.
Key theorems: `stateOf_step`, `passed_before`, `acyclic_of_all_done`, `fork_of_done`.
-/
import Scinit.Outcome
import Scinit.Exec
import Scinit.Lib.Schedule

namespace Scinit

open Transition

variable {H : Host} {progs : List Program} {tr post : List (Sys × Label)} {s s' u : Sys} {l : Label}
  {r q : Ref}

/-! ### One process in one step -/

/-- The supervisor releases processes when they are notified. -/
theorem actOf_release {n : ℕ} (h : actOf H n s l = .release) : l = .notify := by
  cases l with
  | notify => rfl
  | reap pid rc =>
    simp only [actOf] at h
    split at h
    · split at h <;> cases h
    · cases h
  | _ =>
    simp only [actOf] at h
    split at h
    · split at h <;> cases h
    · cases h

/-- It starts a process by a fork. -/
theorem forkOf_of_actOf {n : ℕ} {i : Fin n} (h : actOf H n s l = .start i) : forkOf H s l = some i.val := by
  cases l with
  | notify => cases h
  | reap pid rc =>
    simp only [actOf] at h
    split at h
    · split at h <;> cases h
    · cases h
  | _ =>
    simp only [actOf] at h
    split at h
    · rename_i r hf
      split at h
      · cases h
        exact hf
      · cases h
    · cases h

/-- What a step does to the state of one process. -/
theorem stateOf_step (h : Runs H progs tr s) (hs : step H s l = some s') (r : Ref) :
    s'.stateOf r = s.stateOf r ∨
      (l = .notify ∧ s.stateOf r = some .blocked ∧ s'.stateOf r = some .ready ∧
        ∀ p₀, (boot H progs).objs[r]? = some p₀ → ∀ c ∈ p₀.conditions, s.stateOf c.1 = some c.2) ∨
      (forkOf H s l = some r ∧ s.stateOf r = some .ready ∧ s'.stateOf r = some .running) ∨
      ((∃ pid rc, l = .reap pid rc) ∧ s.stateOf r = some .running ∧
        (s'.stateOf r = some .done ∨ s'.stateOf r = some .crashed)) := by
  have hw := boot_wellFormed H progs
  have hlen := (run_ids h).length
  have hlen' := (run_ids (h.snoc hs)).length
  by_cases hr : r < (boot H progs).objs.length
  · obtain ⟨hi, -, he⟩ := run_effect h hs
    have hstate : ∀ {st : ProcessState}, statesOf _ s ⟨r, hr⟩ = st → s.stateOf r = some st := fun hst =>
      (statesOf_iff hlen ⟨r, hr⟩ _).mp hst
    have hstate' : ∀ {st : ProcessState}, statesOf _ s' ⟨r, hr⟩ = st → s'.stateOf r = some st := fun hst =>
      (statesOf_iff hlen' ⟨r, hr⟩ _).mp hst
    rcases Supervisor.step_cases (effect_refines hw hi he) ⟨r, hr⟩ with
      hsame | ⟨ha, hb, hready, hheld⟩ | ⟨ha, hready, hrun⟩ | ⟨ok, ha, hrun, hend⟩
    · exact Or.inl ((hstate' hsame).trans (hstate rfl).symm)
    · refine Or.inr (Or.inl ⟨?_, hstate hb, hstate' hready, fun p₀ hp₀ c hc => ?_⟩)
      · exact actOf_release ha
      · exact (statesOf_iff hlen ⟨c.1, hw.known r p₀ hp₀ c hc⟩ _).mp (hheld (⟨c.1, _⟩, c.2) ⟨p₀, hp₀, hc⟩)
    · exact Or.inr (Or.inr (Or.inl ⟨forkOf_of_actOf ha, hstate hready, hstate' hrun⟩))
    · refine Or.inr (Or.inr (Or.inr ⟨?_, hstate hrun, ?_⟩))
      · obtain ⟨pid, rc, -, rfl, -⟩ := actOf_finish ha
        exact ⟨pid, rc, rfl⟩
      · have hend := hstate' hend
        cases ok with
        | true => exact Or.inl hend
        | false => exact Or.inr hend
  · have hnone : ∀ {t : Sys}, t.objs.length = (boot H progs).objs.length → t.stateOf r = none := fun ht => by
      rw [Sys.stateOf, List.getElem?_eq_none (ht ▸ Nat.le_of_not_lt hr), Option.map_none]
    exact Or.inl ((hnone hlen').trans (hnone hlen).symm)

/-! ### The order of the starts and finishes -/

/-- What comes before what, if every program is to be done. -/
def Before (progs : List Program) : Moment (Fin progs.length) → Moment (Fin progs.length) → Prop :=
  Moment.Before (fun i j => AwaitsIn progs .done i j) fun i j => AwaitsIn progs .running i j

/-- A process is not held back any more; it is done. -/
def Passed {n : ℕ} (s : Sys) : Moment (Fin n) → Prop
  | .start i => s.stateOf i ≠ some .blocked
  | .finish i => s.stateOf i = some .done

/-- What is awaited at first is awaited in the state that its condition names. -/
theorem awaitsIn_of_condition {p₀ : ChildProcess} (hp₀ : (boot H progs).objs[r]? = some p₀)
    (hb : p₀.state = .blocked) {st : ProcessState} (hc : (q, st) ∈ p₀.conditions) : AwaitsIn progs st r q := by
  refine ⟨awaits_of_condition hp₀ hb hc, fun g g' hg hg' => ?_⟩
  exact ((boot_condition_iff hp₀ hg hg').mp hc).2

theorem AwaitsIn.state {st : ProcessState} (h : AwaitsIn progs st r q) : st = .done ∨ st = .running := by
  obtain ⟨g, g', hg, hg', -⟩ := h.1
  have hstarted : ∀ g : Program, g.startedAs = .done ∨ g.startedAs = .running := fun g => by
    unfold Program.startedAs
    split
    · exact Or.inl rfl
    · exact Or.inr rfl
  rw [h.2 g g' hg hg']
  split
  · exact hstarted g'
  · exact hstarted g

/-- What was to be there when a process is released holds when it is. -/
theorem held_of_awaitsIn {st : ProcessState} (hrq : AwaitsIn progs st r q)
    (hheld : ∀ p₀, (boot H progs).objs[r]? = some p₀ → ∀ c ∈ p₀.conditions, s.stateOf c.1 = some c.2) :
    s.stateOf q = some st := by
  obtain ⟨p₀, hp₀, -, hc⟩ := hrq.condition H
  exact hheld p₀ hp₀ _ hc

/-- A process that a step releases has what it awaits. -/
theorem held_of_step (h : Runs H progs tr s) (hs : step H s l = some s') (hb : s.stateOf r = some .blocked)
    (hr : s'.stateOf r ≠ some .blocked) {st : ProcessState} (hrq : AwaitsIn progs st r q) : s.stateOf q = some st := by
  rcases stateOf_step h hs r with h | ⟨-, -, -, hheld⟩ | ⟨-, h, -⟩ | ⟨-, h, -⟩
  · exact absurd (h.trans hb) hr
  · exact held_of_awaitsIn hrq hheld
  all_goals
    rw [hb] at h
    cases h

/-- A process that a step makes done was running, and is reaped. -/
theorem running_of_step (h : Runs H progs tr s) (hs : step H s l = some s') (hnd : s.stateOf r ≠ some .done)
    (hd : s'.stateOf r = some .done) : (∃ pid rc, l = .reap pid rc) ∧ s.stateOf r = some .running := by
  rcases stateOf_step h hs r with h | ⟨-, -, h, -⟩ | ⟨-, -, h⟩ | ⟨hl, hrun, -⟩
  · exact absurd (h.symm.trans hd) hnd
  · rw [hd] at h
    cases h
  · rw [hd] at h
    cases h
  · exact ⟨hl, hrun⟩

/-- What waits for a process to be running waits forever once that is done. -/
theorem blocked_of_finished (h : Runs H progs tr s) (hrq : AwaitsIn progs .running r q)
    (hq : s.stateOf q = some .done) (hr : s.stateOf r = some .blocked) (hu : Run (step H) s post u) :
    u.stateOf r = some .blocked := by
  suffices u.stateOf q = some .done ∧ u.stateOf r = some .blocked from this.2
  induction hu with
  | refl => exact ⟨hq, hr⟩
  | @snoc post t t' l hu hs ih =>
    obtain ⟨hq, hr⟩ := ih
    have hreach := h.trans hu
    constructor
    · rcases stateOf_step hreach hs q with h | ⟨-, h, -⟩ | ⟨-, h, -⟩ | ⟨-, h, -⟩
      · exact h.trans hq
      all_goals
        rw [hq] at h
        cases h
    · by_contra hne
      have hrun := held_of_step hreach hs hr hne hrq
      rw [hq] at hrun
      cases hrun

/-- Where all programs get done, what comes before a moment has passed before it. -/
theorem passed_before (h : Runs H progs tr s) (hs : step H s l = some s') (hu : Run (step H) s' post u)
    (hall : ∀ r < progs.length, u.stateOf r = some .done) {m m' : Moment (Fin progs.length)} (hm : Passed s' m)
    (hnew : ¬ Passed s m) (hbefore : Before progs m' m) : Passed s m' := by
  cases hbefore with
  | own i =>
    obtain ⟨-, hrun⟩ := running_of_step h hs hnew hm
    show s.stateOf i ≠ _
    rw [hrun]
    decide
  | @after i j hij => exact held_of_step h hs (not_not.mp hnew) hm hij
  | @started i j hij =>
    have hrun := held_of_step h hs (not_not.mp hnew) hm hij
    show s.stateOf j ≠ _
    rw [hrun]
    decide
  | @during i j hij =>
    -- were it still held back, it would never get what it waits for
    intro hb
    obtain ⟨⟨pid, rc, rfl⟩, -⟩ := running_of_step h hs hnew hm
    have hb' : s'.stateOf i = some .blocked := by
      rcases stateOf_step h hs i with h | ⟨hl, -⟩ | ⟨-, h, -⟩ | ⟨-, h, -⟩
      · exact h.trans hb
      · cases hl
      all_goals
        rw [hb] at h
        cases h
    have hend := blocked_of_finished (h.snoc hs) hij hm hb' hu
    rw [hall i i.isLt] at hend
    cases hend

/-- What has passed from the start has nothing before it. -/
theorem not_before_of_boot {m m' : Moment (Fin progs.length)} (hm : Passed (boot H progs) m) :
    ¬ Before progs m' m := by
  intro hbefore
  have hheld : ∀ {st : ProcessState} {i j : Fin progs.length}, AwaitsIn progs st i j →
      (boot H progs).stateOf i = some .blocked := fun hij => by
    obtain ⟨p₀, hp₀, hb, -⟩ := hij.condition H
    exact (Sys.stateOf_eq hp₀).trans (congrArg some hb)
  have hnd : ∀ i : Fin progs.length, (boot H progs).stateOf i ≠ some .done := fun i hd => by
    obtain ⟨p₀, hp₀, hd⟩ := Sys.stateOf_eq_some.mp hd
    rcases (boot_wellFormed H progs).state _ p₀ hp₀ with h | h <;> rw [h] at hd <;> cases hd
  cases hbefore with
  | own i => exact hnd i hm
  | after hij => exact hm (hheld hij)
  | started hij => exact hm (hheld hij)
  | during => exact hnd _ hm

/-- If there is a run in which every program gets done, no start or finish comes before itself. -/
theorem acyclic_of_all_done (h : Runs H progs tr u) (hall : ∀ r < progs.length, u.stateOf r = some .done)
    (m : Moment (Fin progs.length)) : ¬ Relation.TransGen (Before progs) m m := by
  have hend : ∀ m : Moment (Fin progs.length), Passed u m := by
    intro m
    cases m with
    | start i =>
      show u.stateOf i ≠ _
      rw [hall i i.isLt]
      decide
    | finish i => exact hall i i.isLt
  have hacc := acc_of_passed (R := Before progs) (fun _ hm _ => not_before_of_boot hm)
    (fun _ _ _ _ _ hpre hs hpost _ hm hnew _ => passed_before hpre hs hpost hall hm hnew) h .refl
  have hwf : WellFounded (Before progs) := ⟨fun m => hacc m (hend m)⟩
  exact hwf.transGen.irrefl.irrefl m

theorem scinit_logged (h : Runs H progs tr s) : "scinit".toList ∈ s.loggers := by
  induction h with
  | refl => exact List.mem_singleton_self _
  | snoc h hs ih => exact loggers_mono (run_effect h hs).2.2 ih

/-- The entry of an object has its name. -/
theorem name_of_entry (h : Runs H progs tr s) {p : ChildProcess} (hp : s.objs[r]? = some p) {g : Program}
    (hg : progs[r]? = some g) : p.name = g.name := by
  have hpri := run_pristine h r
  rw [hp, hg, Option.map_some, Option.map_some, Option.some.injEq] at hpri
  exact congrArg ChildProcess.name hpri

/-- The fork of an entry, the name it needed and the environment it was given. -/
theorem fork_of_done (h : Runs H progs tr s) (hd : s.stateOf r = some .done) {g : Program} (hg : progs[r]? = some g) :
    ∃ t l p, (t, l) ∈ tr ∧ forkOf H t l = some r ∧ t.objs[r]? = some p ∧ p.name = g.name ∧
      g.name ≠ "scinit".toList ∧ ∃ environment, handleEnv H (ChildProcess.new H g r) = .ok environment := by
  obtain ⟨⟨t, l⟩, hm, hf⟩ := happened_of_started h hd (Or.inr (Or.inl rfl))
  obtain ⟨pre, post, t', rfl, hpre, hs, -⟩ := h.step_of_mem hm
  obtain ⟨c, site, todo, p, rfl, hpc, hp, hr, hn, hexn⟩ := forkOf_eq_some hf
  have hname := name_of_entry hpre hp hg
  refine ⟨t, _, p, hm, hf, hp, hname, fun heq => hn ?_, ?_⟩
  · rw [hname, heq]
    exact scinit_logged hpre
  · obtain ⟨-, -, environment, henv⟩ := (doFork_exn_iff r hr _).mp hexn
    obtain ⟨g', hg', -, -, heq, -⟩ := entry_of_object hpre hp
    obtain rfl := Option.some.inj (hg.symm.trans hg')
    exact ⟨environment, heq.symm.trans henv⟩

/-- A configuration whose programs all get done gives each a name for its logger. -/
theorem names_nodup_of_all_done (h : Runs H progs tr s) (hall : ∀ r < progs.length, s.stateOf r = some .done) :
    ("scinit".toList :: progs.map Program.name).Nodup := by
  have hlt : ∀ {r : Ref} {g : Program}, progs[r]? = some g → r < progs.length := fun hg =>
    (List.getElem?_eq_some_iff.mp hg).1
  refine List.nodup_cons.mpr ⟨fun hmem => ?_, ?_⟩
  · obtain ⟨g, hg, hname⟩ := List.mem_map.mp hmem
    obtain ⟨r, hg⟩ := List.mem_iff_getElem?.mp hg
    obtain ⟨_, _, _, -, -, -, -, hne, -⟩ := fork_of_done h (hall r (hlt hg)) hg
    exact hne hname
  · rw [List.nodup_iff_getElem?_ne_getElem?]
    intro i j hij hj heq
    rw [List.length_map] at hj
    obtain ⟨g, hg⟩ : ∃ g, progs[i]? = some g := ⟨_, List.getElem?_eq_getElem (hij.trans hj)⟩
    obtain ⟨g', hg'⟩ : ∃ g', progs[j]? = some g' := ⟨_, List.getElem?_eq_getElem hj⟩
    rw [List.getElem?_map, List.getElem?_map, hg, hg', Option.map_some, Option.map_some, Option.some.injEq] at heq
    obtain ⟨t, l, p, hm, hf, hp, hname, -, -⟩ := fork_of_done h (hall i (hlt hg)) hg
    obtain ⟨t', l', p', hm', hf', hp', hname', -, -⟩ := fork_of_done h (hall j (hlt hg')) hg'
    have hsame := forks_distinct h hm hm' hf hf' hp hp' (hname.trans (heq.trans hname'.symm))
    exact Nat.ne_of_lt hij hsame

end Scinit
