/-
# The supervisor, in the abstract

What scinit is for: it starts each of its processes once, and not before the
others are in the states that the process needs. A state is a function from
processes to their `ProcessState`. Nothing is said here of descriptors, pids,
tables or batches; `Scinit/Lifecycle.lean` shows that the event loop is one of
these systems.

Key definitions: `Supervisor.step`, `Held`, `Moves`, `Runnable`.
Key theorems: `step_moves`, `start_once`, `ran_of_started`, `held_of_released`,
`culprit`, `outcome_eq`.
-/
import Scinit.ChildProcess
import Scinit.Lib.Run

namespace Scinit

/-- One move of a process along its life. -/
inductive Moves : ProcessState → ProcessState → Prop
  | released : Moves .blocked .ready
  | forked : Moves .ready .running
  | done : Moves .running .done
  | crashed : Moves .running .crashed

namespace Supervisor

open Transition

variable {ι : Type*}

/-- What a supervisor does: it releases the processes that wait for nothing any
more, starts a process, or learns that one has ended. -/
inductive Act (ι : Type*)
  | release
  | start (i : ι)
  | finish (i : ι) (ok : Bool)
  | stay

/-- The others are in the states that `i` needs. -/
def Held (needs : ι → Set (ι × ProcessState)) (st : ι → ProcessState) (i : ι) : Prop :=
  ∀ n ∈ needs i, st n.1 = n.2

open Classical in
noncomputable def step [DecidableEq ι] (needs : ι → Set (ι × ProcessState)) (st : ι → ProcessState) :
    Act ι → Option (ι → ProcessState)
  | .release => some fun i => if st i = .blocked ∧ Held needs st i then .ready else st i
  | .start i => if st i = .ready then some (Function.update st i .running) else none
  | .finish i ok =>
    if st i = .running then some (Function.update st i (if ok then .done else .crashed)) else none
  | .stay => some st

variable [DecidableEq ι] {needs : ι → Set (ι × ProcessState)} {st st' st₀ : ι → ProcessState} {a : Act ι}
  {tr : List ((ι → ProcessState) × Act ι)}

/-! ### One step -/

/-- What a step does to one process. -/
theorem step_cases (h : step needs st a = some st') (i : ι) :
    st' i = st i ∨ (a = .release ∧ st i = .blocked ∧ st' i = .ready ∧ Held needs st i) ∨
      (a = .start i ∧ st i = .ready ∧ st' i = .running) ∨
      ∃ ok, a = .finish i ok ∧ st i = .running ∧ st' i = if ok then .done else .crashed := by
  cases a with
  | release =>
    simp only [step, Option.some.injEq] at h
    subst h
    by_cases hi : st i = .blocked ∧ Held needs st i
    · exact Or.inr (Or.inl ⟨rfl, hi.1, if_pos hi, hi.2⟩)
    · exact Or.inl (if_neg hi)
  | start j =>
    simp only [step, Option.ite_none_right_eq_some, Option.some.injEq] at h
    obtain ⟨hj, rfl⟩ := h
    by_cases hi : i = j
    · subst hi
      exact Or.inr (Or.inr (Or.inl ⟨rfl, hj, Function.update_self ..⟩))
    · exact Or.inl (Function.update_of_ne hi _ _)
  | finish j ok =>
    simp only [step, Option.ite_none_right_eq_some, Option.some.injEq] at h
    obtain ⟨hj, rfl⟩ := h
    by_cases hi : i = j
    · subst hi
      exact Or.inr (Or.inr (Or.inr ⟨ok, rfl, hj, Function.update_self ..⟩))
    · exact Or.inl (Function.update_of_ne hi _ _)
  | stay =>
    simp only [step, Option.some.injEq] at h
    exact Or.inl (congrFun h.symm i)

/-- A process moves one place along its life, or not at all. -/
theorem step_moves (h : step needs st a = some st') (i : ι) : st' i = st i ∨ Moves (st i) (st' i) := by
  rcases step_cases h i with h | ⟨-, h1, h2, -⟩ | ⟨-, h1, h2⟩ | ⟨ok, -, h1, h2⟩
  · exact Or.inl h
  · rw [h1, h2]
    exact Or.inr .released
  · rw [h1, h2]
    exact Or.inr .forked
  · rw [h1, h2]
    cases ok
    · exact Or.inr .crashed
    · exact Or.inr .done

/-- Only the start of `i` makes it running. -/
theorem start_moves {i : ι} (h : step needs st (.start i) = some st') :
    st i = .ready ∧ st' i = .running := by
  simp only [step, Option.ite_none_right_eq_some, Option.some.injEq] at h
  obtain ⟨hj, rfl⟩ := h
  exact ⟨hj, Function.update_self ..⟩

/-! ### Runs -/

/-- A process was started. -/
def Started (p : ProcessState) : Prop := p = .running ∨ p = .done ∨ p = .crashed

theorem started_of_moves {p q : ProcessState} (h : Moves p q) (hp : Started p) : Started q := by
  cases h with
  | released => rcases hp with h | h | h <;> cases h
  | forked => exact Or.inl rfl
  | done => exact Or.inr (Or.inl rfl)
  | crashed => exact Or.inr (Or.inr rfl)

theorem started_of_step (h : step needs st a = some st') {i : ι} (hi : Started (st i)) :
    Started (st' i) := by
  rcases step_moves h i with h | h
  · rwa [h]
  · exact started_of_moves h hi

theorem not_started_of_start {i : ι} (h : step needs st (.start i) = some st') :
    ¬ Started (st i) := by
  rw [(start_moves h).1]
  rintro (h | h | h) <;> cases h

/-- Only its start makes a process one that was started, and nothing takes that back. -/
theorem started_iff (h : step needs st a = some st') (i : ι) : Started (st' i) ↔ Started (st i) ∨ a = .start i := by
  constructor
  · intro hi
    rcases step_cases h i with he | ⟨-, -, he, -⟩ | ⟨ha, -, -⟩ | ⟨ok, -, hr, -⟩
    · exact Or.inl (he ▸ hi)
    · rw [he] at hi
      rcases hi with hi | hi | hi <;> cases hi
    · exact Or.inr ha
    · exact Or.inl (Or.inl hr)
  · rintro (hi | rfl)
    · exact started_of_step h hi
    · exact Or.inl (start_moves h).2

/-- How many processes were not started yet. -/
noncomputable def unstarted (st : ι → ProcessState) : ℕ := {i | ¬ Started (st i)}.ncard

theorem unstarted_le [Finite ι] (h : step needs st a = some st') : unstarted st' ≤ unstarted st :=
  Set.ncard_le_ncard fun i hi hs => hi ((started_iff h i).mpr (Or.inl hs))

theorem unstarted_lt [Finite ι] {i : ι} (h : step needs st (.start i) = some st') :
    unstarted st' < unstarted st := by
  refine Set.ncard_lt_ncard ⟨fun j hj hs => hj ((started_iff h j).mpr (Or.inl hs)), fun hsub => ?_⟩
  exact hsub (not_started_of_start h) ((started_iff h i).mpr (Or.inr rfl))

open Classical in
/-- **Each process is started at most once.** -/
theorem start_once (h : Run (step needs) st₀ tr st) (i : ι) :
    (tr.countP fun e => e.2 = .start i) ≤ 1 := by
  suffices (tr.countP fun e => e.2 = .start i) ≤ 1 ∧
      (0 < (tr.countP fun e => e.2 = .start i) → Started (st i)) from this.1
  induction h with
  | refl => simp
  | @snoc tr st st' a _ hs ih =>
    obtain ⟨ih1, ih2⟩ := ih
    rw [List.countP_append, List.countP_singleton]
    by_cases ha : a = .start i
    · subst ha
      have h0 : ¬ 0 < (tr.countP fun e => e.2 = .start i) :=
        fun h => not_started_of_start hs (ih2 h)
      have h1 := (start_moves hs).2
      simp only [decide_true, if_true]
      exact ⟨by omega, fun _ => Or.inl h1⟩
    · simp only [ha, decide_false, Bool.false_eq_true, if_false, Nat.add_zero]
      exact ⟨ih1, fun h => started_of_step hs (ih2 h)⟩

/-- No process is ever in backoff. -/
theorem not_backoff (h0 : ∀ i, st₀ i ≠ .backoff) (h : Run (step needs) st₀ tr st) (i : ι) :
    st i ≠ .backoff := by
  refine h.inv (I := fun st => ∀ i, st i ≠ .backoff) h0 (fun st a st' hst hs i => ?_) i
  rcases step_moves hs i with he | hm
  · rw [he]
    exact hst i
  · intro hb
    rw [hb] at hm
    generalize st i = a at hm
    cases hm

/-- What has ended was running before. -/
theorem ran_of_started (h0 : ∀ i, ¬ Started (st₀ i)) (h : Run (step needs) st₀ tr st) {i : ι}
    (hi : Started (st i)) : ∃ t ∈ visited tr st, t i = .running := by
  obtain ⟨pre, t, a, t', post, rfl, h1, hs, h2, hn, hp⟩ := h.enters (Q := fun st => Started (st i)) (h0 i) hi
  refine ⟨t', ?_, ?_⟩
  · rw [visited_append, List.mem_append]
    exact Or.inr (List.mem_cons_of_mem _ h2.start_mem_visited)
  · rcases step_cases hs i with h | ⟨-, -, h, -⟩ | ⟨-, -, h⟩ | ⟨ok, -, h, -⟩
    · rw [h] at hp
      exact absurd hp hn
    · rw [h] at hp
      rcases hp with h | h | h <;> cases h
    · exact h
    · exact absurd (Or.inl h) hn

/-- **A process that was held back was released at a moment when everything it
needs held.** -/
theorem held_of_released (h : Run (step needs) st₀ tr st) {i : ι} (h0 : st₀ i = .blocked)
    (hi : st i ≠ .blocked) : ∃ t ∈ visited tr st, t i = .blocked ∧ Held needs t i := by
  obtain ⟨pre, t, a, t', post, rfl, h1, hs, h2, hn, hp⟩ :=
    h.enters (Q := fun st => st i ≠ .blocked) (fun h => h h0) hi
  have hb : t i = .blocked := not_not.mp hn
  refine ⟨t, ?_, hb, ?_⟩
  · exact mem_visited.mpr (Or.inl ⟨a, by simp⟩)
  · rcases step_cases hs i with h | ⟨-, -, -, h⟩ | ⟨-, h, -⟩ | ⟨ok, -, h, -⟩
    · rw [h] at hp
      exact absurd hb hp
    · exact h
    · rw [hb] at h
      cases h
    · rw [hb] at h
      cases h

/-! ### What a supervisor is stuck on -/

/-- In a finite set without cycles, whoever leaves no member of `P` without a
successor leads out of `P` along members of `P`. -/
theorem leads_out {α : Type*} [Finite α] {r : α → α → Prop} (hac : ∀ a, ¬ Relation.TransGen r a a)
    {P : α → Prop} (hP : ∀ a, P a → ∃ b, r a b) {a : α} (ha : P a) :
    ∃ b c, Relation.ReflTransGen (fun x y => r x y ∧ P y) a b ∧ P b ∧ r b c ∧ ¬ P c := by
  let gt (x y : α) : Prop := Relation.TransGen r y x
  have htrans : IsTrans α gt := ⟨fun _ _ _ h h' => h'.trans h⟩
  have hirr : Std.Irrefl gt := ⟨hac⟩
  have hwf : WellFounded gt := Finite.wellFounded_of_trans_of_irrefl gt
  induction a using hwf.induction with
  | _ a ih =>
    obtain ⟨b, hb⟩ := hP a ha
    by_cases hPb : P b
    · obtain ⟨c, d, hc, h⟩ := ih b (.single hb) hPb
      exact ⟨c, d, .head ⟨hb, hPb⟩ hc, h⟩
    · exact ⟨a, b, .refl, ha, hb, hPb⟩

/-- `j` is not in a state that `i` needs it in. -/
def Unmet (needs : ι → Set (ι × ProcessState)) (st : ι → ProcessState) (i j : ι) : Prop :=
  ∃ n ∈ needs i, n.1 = j ∧ st j ≠ n.2

omit [DecidableEq ι] in
/-- **The culprit.** When nothing runs any more and every process that is held
back has an unmet need, then each of them is held back, through others that
are, by one that crashed, that is done where it was needed running, or that is
ready and was not started. -/
theorem culprit [Finite ι] (hac : ∀ i, ¬ Relation.TransGen (fun i j => ∃ n ∈ needs i, n.1 = j) i i)
    (hneed : ∀ i, ∀ n ∈ needs i, n.2 = .running ∨ n.2 = .done)
    (hstuck : ∀ i, st i = .blocked → ∃ j, Unmet needs st i j)
    (hrun : ∀ i, st i ≠ .running ∧ st i ≠ .backoff) {i : ι} (hi : st i = .blocked) :
    ∃ k j, Relation.ReflTransGen (fun i j => Unmet needs st i j ∧ st j = .blocked) i k ∧
      st k = .blocked ∧ Unmet needs st k j ∧
      (st j = .crashed ∨ (st j = .done ∧ ∃ n ∈ needs k, n = (j, .running)) ∨ st j = .ready) := by
  have hac' : ∀ i, ¬ Relation.TransGen (Unmet needs st) i i := by
    intro i h
    refine hac i (Relation.TransGen.mono ?_ i i h)
    rintro _ _ ⟨n, hn, hj, -⟩
    exact ⟨n, hn, hj⟩
  obtain ⟨k, j, hc, hk, hu, hj⟩ := leads_out hac' hstuck hi
  refine ⟨k, j, hc, hk, hu, ?_⟩
  obtain ⟨n, hn, rfl, hne⟩ := hu
  obtain ⟨hr, hb⟩ := hrun n.1
  cases hs : st n.1 with
  | blocked => exact absurd hs hj
  | ready => exact Or.inr (Or.inr rfl)
  | running => exact absurd hs hr
  | done =>
    rcases hneed k n hn with h | h
    · exact Or.inr (Or.inl ⟨rfl, n, hn, Prod.ext rfl h⟩)
    · exact absurd (hs.trans h.symm) hne
  | crashed => exact Or.inl rfl
  | backoff => exact absurd hs hb

/-! ### What a run comes to -/

section

variable {verdict : ι → Bool}

/-- The processes that get to run when each process ends as `verdict` says and a
process is released by others that end well. -/
inductive Runnable (needs : ι → Set (ι × ProcessState)) (st₀ : ι → ProcessState) (verdict : ι → Bool) : ι → Prop
  | ready {i : ι} : st₀ i ≠ .blocked → Runnable needs st₀ verdict i
  | released {i : ι} : (∀ n ∈ needs i, Runnable needs st₀ verdict n.1) → (∀ n ∈ needs i, verdict n.1 = true) →
      Runnable needs st₀ verdict i

/-- Nothing is left to do: no process is ready or runs, and what is held back stays so. -/
structure Settled (needs : ι → Set (ι × ProcessState)) (st : ι → ProcessState) : Prop where
  ready : ∀ i, st i ≠ .ready
  running : ∀ i, st i ≠ .running
  held : ∀ i, st i = .blocked → ¬ Held needs st i

/-- Each process that ends in these steps ends as `verdict` says. -/
def EndsBy (verdict : ι → Bool) (tr : List ((ι → ProcessState) × Act ι)) : Prop :=
  ∀ e ∈ tr, ∀ i ok, e.2 = .finish i ok → ok = verdict i

/-- A process that has ended has ended as it does. -/
theorem verdict_of_ended (h0 : ∀ i, st₀ i ≠ .done ∧ st₀ i ≠ .crashed) (h : Run (step needs) st₀ tr st)
    (hv : EndsBy verdict tr) (i : ι) : (st i = .done → verdict i = true) ∧ (st i = .crashed → verdict i = false) := by
  refine h.inv_of (I := fun st => (st i = .done → verdict i = true) ∧ (st i = .crashed → verdict i = false))
    (C := fun _ a => ∀ i ok, a = Act.finish i ok → ok = verdict i)
    ⟨fun hd => absurd hd (h0 i).1, fun hc => absurd hc (h0 i).2⟩ (fun st a st' hI hC hs => ?_) hv
  rcases step_cases hs i with he | ⟨-, -, he, -⟩ | ⟨-, -, he⟩ | ⟨ok, ha, -, he⟩
  · rwa [he]
  · rw [he]
    exact ⟨fun hd => (by cases hd), fun hc => (by cases hc)⟩
  · rw [he]
    exact ⟨fun hd => (by cases hd), fun hc => (by cases hc)⟩
  · rw [he, ← hC i ok ha]
    cases ok
    · exact ⟨fun hd => (by cases hd), fun _ => rfl⟩
    · exact ⟨fun _ => rfl, fun hc => (by cases hc)⟩

/-- What left its place is runnable, where processes wait for others to be done. -/
theorem runnable_of_not_blocked (hneed : ∀ i, ∀ n ∈ needs i, n.2 = .done)
    (h0 : ∀ i, st₀ i ≠ .done ∧ st₀ i ≠ .crashed) (h : Run (step needs) st₀ tr st) (hv : EndsBy verdict tr) :
    ∀ i, st i ≠ .blocked → Runnable needs st₀ verdict i := by
  induction h with
  | refl => exact fun i hi => .ready hi
  | @snoc tr st st' a h hs ih =>
    have hv' : EndsBy verdict tr := fun e he => hv e (List.mem_append_left _ he)
    have ih := ih hv'
    intro i hi
    rcases step_cases hs i with he | ⟨-, -, -, hheld⟩ | ⟨-, he, -⟩ | ⟨ok, -, he, -⟩
    · exact ih i (he ▸ hi)
    · -- released: what it needs was done, so it is runnable and ends well
      have hdone : ∀ n ∈ needs i, st n.1 = .done := fun n hn => (hheld n hn).trans (hneed i n hn)
      refine .released (fun n hn => ih n.1 ?_) fun n hn => (verdict_of_ended h0 h hv' n.1).1 (hdone n hn)
      rw [hdone n hn]
      decide
    · exact ih i (by rw [he]; decide)
    · exact ih i (by rw [he]; decide)

/-- What is not held back at the start never is. -/
theorem not_blocked_of_start (h : Run (step needs) st₀ tr st) {i : ι} (hi : st₀ i ≠ .blocked) :
    st i ≠ .blocked := by
  refine h.inv (I := fun st => st i ≠ .blocked) hi fun st a st' hI hs => ?_
  rcases step_moves hs i with he | hm
  · rwa [he]
  · intro hb
    rw [hb] at hm
    generalize st i = b at hm
    cases hm

/-- What is not held back has ended, in a run that has come to its end. -/
theorem ended_of_settled (h0 : ∀ i, st₀ i = .blocked ∨ st₀ i = .ready) (h : Run (step needs) st₀ tr st)
    (hset : Settled needs st) {i : ι} (hi : st i ≠ .blocked) : st i = .done ∨ st i = .crashed := by
  have hback : st i ≠ .backoff := not_backoff (fun j => by rcases h0 j with hj | hj <;> rw [hj] <;> decide) h i
  have hready := hset.ready i
  have hrun := hset.running i
  cases hst : st i with
  | blocked => exact absurd hst hi
  | ready => exact absurd hst hready
  | running => exact absurd hst hrun
  | done => exact Or.inl rfl
  | crashed => exact Or.inr rfl
  | backoff => exact absurd hst hback

open Classical in
/-- **The outcome.** Where processes wait for others to be done, a run that has
come to its end has run exactly the runnable processes, whatever the order was. -/
theorem outcome_eq (hneed : ∀ i, ∀ n ∈ needs i, n.2 = .done) (h0 : ∀ i, st₀ i = .blocked ∨ st₀ i = .ready)
    (h : Run (step needs) st₀ tr st) (hv : EndsBy verdict tr) (hset : Settled needs st) (i : ι) :
    st i = if Runnable needs st₀ verdict i then (if verdict i = true then .done else .crashed) else .blocked := by
  have hnot : ∀ i, st₀ i ≠ .done ∧ st₀ i ≠ .crashed := fun i => by
    rcases h0 i with hi | hi <;> rw [hi] <;> decide
  have hends : ∀ i, st i ≠ .blocked → st i = if verdict i = true then .done else .crashed := fun i hi => by
    obtain ⟨h1, h2⟩ := verdict_of_ended hnot h hv i
    rcases ended_of_settled h0 h hset hi with hd | hc
    · rw [hd, h1 hd, if_pos rfl]
    · rw [hc, h2 hc, if_neg Bool.false_ne_true]
  have hruns : ∀ i, Runnable needs st₀ verdict i → st i ≠ .blocked := fun i hi => by
    induction hi with
    | ready hi => exact not_blocked_of_start h hi
    | released _ hgood ih =>
      intro hb
      refine hset.held _ hb fun n hn => ?_
      rw [hends n.1 (ih n hn), if_pos (hgood n hn), hneed _ n hn]
  by_cases hi : Runnable needs st₀ verdict i
  · rw [if_pos hi]
    exact hends i (hruns i hi)
  · rw [if_neg hi]
    exact not_not.mp fun hb => hi (runnable_of_not_blocked hneed hnot h hv i hb)

end

end Supervisor

end Scinit
