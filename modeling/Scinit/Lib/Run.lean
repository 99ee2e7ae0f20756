/-
# Runs of a labelled transition system

A system is a partial function `step` from a state and a label to the next
state: the label carries everything the system does not decide itself, and
`none` says that the label is not possible there. A run is the list of the
states it left, each with the label it left it by, and the state it ends in.

Key definitions: `Run`, `visited`, `ReachesBy`, `exec`.
Key theorems: `Run.inv_of`, `Run.split`, `Run.enters`, `Run.simulate`,
`ReachesBy.exists_of_measure`, `Run.of_exec`.
-/
import Mathlib

namespace Transition

variable {σ ℓ : Type*} {step : σ → ℓ → Option σ}

/-- The runs from `s₀`. -/
inductive Run (step : σ → ℓ → Option σ) (s₀ : σ) : List (σ × ℓ) → σ → Prop
  | refl : Run step s₀ [] s₀
  | snoc {tr : List (σ × ℓ)} {s s' : σ} {l : ℓ} :
      Run step s₀ tr s → step s l = some s' → Run step s₀ (tr ++ [(s, l)]) s'

/-- The states a run has been in, the one it ends in included. -/
def visited (tr : List (σ × ℓ)) (s : σ) : List σ := tr.map Prod.fst ++ [s]

@[simp] theorem visited_nil (s : σ) : visited ([] : List (σ × ℓ)) s = [s] := rfl

theorem mem_visited {tr : List (σ × ℓ)} {s t : σ} :
    t ∈ visited tr s ↔ (∃ l, (t, l) ∈ tr) ∨ t = s := by
  simp [visited]

theorem self_mem_visited (tr : List (σ × ℓ)) (s : σ) : s ∈ visited tr s := by simp [visited]

theorem visited_append (tr tr' : List (σ × ℓ)) (s : σ) :
    visited (tr ++ tr') s = tr.map Prod.fst ++ visited tr' s := by
  simp [visited]

/-- The first place of a list that has a property. -/
theorem exists_first {α : Type*} {P : α → Prop} {xs : List α} (h : ∃ x ∈ xs, P x) :
    ∃ as x bs, xs = as ++ x :: bs ∧ P x ∧ ∀ a ∈ as, ¬ P a := by
  classical
  obtain ⟨x, hx⟩ := Option.isSome_iff_exists.mp (List.find?_isSome.mpr
    (show ∃ x, x ∈ xs ∧ decide (P x) = true by simpa using h))
  obtain ⟨hP, as, bs, rfl, has⟩ := List.find?_eq_some_iff_append.mp hx
  exact ⟨as, x, bs, rfl, of_decide_eq_true hP, fun a ha => by simpa using has a ha⟩

namespace Run

variable {s₀ s s' : σ} {tr tr' : List (σ × ℓ)} {l : ℓ}

theorem single (h : step s l = some s') : Run step s [(s, l)] s' := by
  have h0 : Run step s [] s := .refl
  simpa using h0.snoc h

theorem trans {m : σ} (h : Run step s₀ tr m) (h' : Run step m tr' s) :
    Run step s₀ (tr ++ tr') s := by
  induction h' with
  | refl => simpa using h
  | snoc _ hs ih => simpa [List.append_assoc] using ih.snoc hs

/-- A run takes an invariant along, if the steps that meet `C` keep it and
every step of the run meets `C`. -/
theorem inv_of {C : σ → ℓ → Prop} {I : σ → Prop} (h0 : I s₀)
    (hstep : ∀ s l s', I s → C s l → step s l = some s' → I s')
    (h : Run step s₀ tr s) (hC : ∀ e ∈ tr, C e.1 e.2) : I s := by
  induction h with
  | refl => exact h0
  | snoc _ hs ih =>
    simp only [List.forall_mem_append, List.forall_mem_singleton] at hC
    exact hstep _ _ _ (ih hC.1) hC.2 hs

theorem inv {I : σ → Prop} (h0 : I s₀) (hstep : ∀ s l s', I s → step s l = some s' → I s')
    (h : Run step s₀ tr s) : I s :=
  h.inv_of h0 (fun s l s' hI (_ : True) => hstep s l s' hI) (fun _ _ => trivial)

/-- A run cut in two. -/
theorem append_iff : Run step s₀ (tr ++ tr') s ↔ ∃ m, Run step s₀ tr m ∧ Run step m tr' s := by
  constructor
  · induction tr' using List.reverseRecOn generalizing s with
    | nil => exact fun h => ⟨s, by simpa using h, .refl⟩
    | append_singleton xs x ih =>
      intro h
      rw [← List.append_assoc] at h
      generalize he : tr ++ xs ++ [x] = tr₀ at h
      cases h with
      | refl => simp at he
      | snoc h hs =>
        obtain ⟨he, hx⟩ := List.append_inj' he rfl
        subst he
        simp only [List.cons.injEq, and_true] at hx
        subst hx
        obtain ⟨m, h1, h2⟩ := ih h
        exact ⟨m, h1, h2.snoc hs⟩
  · rintro ⟨m, h1, h2⟩
    exact h1.trans h2

theorem nil_iff : Run step s₀ [] s ↔ s = s₀ := by
  constructor
  · generalize he : ([] : List (σ × ℓ)) = tr
    intro h
    cases h with
    | refl => rfl
    | snoc => simp at he
  · rintro rfl
    exact .refl

theorem single_iff {e : σ × ℓ} : Run step s₀ [e] s ↔ e.1 = s₀ ∧ step e.1 e.2 = some s := by
  constructor
  · generalize he : [e] = tr
    intro h
    cases h with
    | refl => simp at he
    | snoc h hs =>
      rw [← List.nil_append [e]] at he
      obtain ⟨he, hx⟩ := List.append_inj' he rfl
      simp only [List.cons.injEq, and_true] at hx
      subst he hx
      exact ⟨nil_iff.mp h, hs⟩
  · rintro ⟨rfl, h⟩
    exact single h

/-- A run cut at one of its steps. -/
theorem split {t : σ} (h : Run step s₀ (tr ++ (t, l) :: tr') s) :
    Run step s₀ tr t ∧ ∃ t', step t l = some t' ∧ Run step t' tr' s := by
  rw [List.append_cons] at h
  obtain ⟨t', h1, h2⟩ := append_iff.mp h
  obtain ⟨m, h3, h4⟩ := append_iff.mp h1
  obtain ⟨rfl, hs⟩ := single_iff.mp h4
  exact ⟨h3, t', hs, h2⟩

theorem step_of_mem {t : σ} (h : Run step s₀ tr s) (hm : (t, l) ∈ tr) :
    ∃ pre post t', tr = pre ++ (t, l) :: post ∧ Run step s₀ pre t ∧ step t l = some t' ∧
      Run step t' post s := by
  obtain ⟨pre, post, rfl⟩ := List.append_of_mem hm
  obtain ⟨h1, t', hs, h2⟩ := h.split
  exact ⟨pre, post, t', rfl, h1, hs, h2⟩

/-- The states of a run are ends of its prefixes. -/
theorem prefix_of_visited {t : σ} (h : Run step s₀ tr s) (ht : t ∈ visited tr s) :
    ∃ pre post, tr = pre ++ post ∧ Run step s₀ pre t ∧ Run step t post s := by
  rcases mem_visited.mp ht with ⟨l, hl⟩ | rfl
  · obtain ⟨pre, post, t', rfl, h1, hs, h2⟩ := h.step_of_mem hl
    exact ⟨pre, _, rfl, h1, (single hs).trans h2⟩
  · exact ⟨tr, [], by simp, h, .refl⟩

/-- A run has been in the state it started from. -/
theorem start_mem_visited (h : Run step s₀ tr s) : s₀ ∈ visited tr s := by
  cases tr with
  | nil => exact mem_visited.mpr (Or.inr (nil_iff.mp h).symm)
  | cons e tr =>
    have h' : Run step s₀ ([] ++ (e.1, e.2) :: tr) s := h
    have h0 := nil_iff.mp h'.split.1
    exact mem_visited.mpr (Or.inl ⟨e.2, by simp [← h0]⟩)

/-- What holds at the end and did not hold at the start came to hold in a step
of the run. -/
theorem enters {Q : σ → Prop} (h : Run step s₀ tr s) (h0 : ¬ Q s₀) (hq : Q s) :
    ∃ pre t l t' post, tr = pre ++ (t, l) :: post ∧ Run step s₀ pre t ∧ step t l = some t' ∧
      Run step t' post s ∧ ¬ Q t ∧ Q t' := by
  induction h with
  | refl => exact absurd hq h0
  | @snoc tr t t' l h hs ih =>
    by_cases hq' : Q t
    · obtain ⟨pre, u, k, u', post, rfl, h1, h2, h3, h4, h5⟩ := ih hq'
      exact ⟨pre, u, k, u', post ++ [(t, l)], by simp, h1, h2, h3.snoc hs, h4, h5⟩
    · exact ⟨tr, t, l, t', [], rfl, h, hs, .refl, hq', hq⟩

/-! ### Simulation -/

/-- A run whose steps are steps of another system is a run of that system. -/
theorem simulate {τ κ : Type*} {step' : τ → κ → Option τ} {f : σ → τ} {g : σ → ℓ → κ}
    (hsim : ∀ tr s l s', Run step s₀ tr s → step s l = some s' → step' (f s) (g s l) = some (f s'))
    (h : Run step s₀ tr s) : Run step' (f s₀) (tr.map fun e => (f e.1, g e.1 e.2)) (f s) := by
  induction h with
  | refl => exact .refl
  | snoc h hs ih =>
    rw [List.map_append]
    exact ih.snoc (hsim _ _ _ _ h hs)

end Run

/-! ### Getting somewhere -/

/-- A run whose steps all meet `C` leads from the one state to the other. -/
def ReachesBy (step : σ → ℓ → Option σ) (C : σ → ℓ → Prop) (s s' : σ) : Prop :=
  ∃ tr, Run step s tr s' ∧ ∀ e ∈ tr, C e.1 e.2

namespace ReachesBy

variable {C : σ → ℓ → Prop} {s s' t : σ} {l : ℓ}

theorem refl : ReachesBy step C s s := ⟨[], .refl, List.forall_mem_nil _⟩

theorem trans (h : ReachesBy step C s t) (h' : ReachesBy step C t s') : ReachesBy step C s s' := by
  obtain ⟨tr, hrun, hC⟩ := h
  obtain ⟨tr', hrun', hC'⟩ := h'
  exact ⟨tr ++ tr', hrun.trans hrun', List.forall_mem_append.mpr ⟨hC, hC'⟩⟩

theorem single (hs : step s l = some s') (hC : C s l) : ReachesBy step C s s' :=
  ⟨[(s, l)], .single hs, List.forall_mem_singleton.mpr hC⟩

/-- Where a run can always be found that leads to the goal or lowers a measure, the goal can be reached. -/
theorem exists_of_measure {I G : σ → Prop} (μ : σ → ℕ)
    (hstep : ∀ s, I s → ∃ s', ReachesBy step C s s' ∧ I s' ∧ (G s' ∨ μ s' < μ s)) (hs : I s) :
    ∃ s', ReachesBy step C s s' ∧ I s' ∧ G s' := by
  induction hn : μ s using Nat.strong_induction_on generalizing s with
  | _ n ih =>
    obtain ⟨m, hrun, hm, hG | hlt⟩ := hstep s hs
    · exact ⟨m, hrun, hm, hG⟩
    · obtain ⟨s', hrun', hs', hG⟩ := ih (μ m) (hn ▸ hlt) hm rfl
      exact ⟨s', hrun.trans hrun', hs', hG⟩

end ReachesBy

theorem visited_map {τ κ : Type*} (f : σ → τ) (g : σ → ℓ → κ) (tr : List (σ × ℓ)) (s : σ) :
    visited (tr.map fun e => (f e.1, g e.1 e.2)) (f s) = (visited tr s).map f := by
  simp [visited, Function.comp_def]

/-! ### Running a system

A run on given labels can be computed. -/

/-- The run from `s` on the labels `ls`, if they are possible. -/
def exec (step : σ → ℓ → Option σ) : σ → List ℓ → Option σ
  | s, [] => some s
  | s, l :: ls => (step s l).bind fun s' => exec step s' ls

/-- The steps of the run on the labels `ls`. -/
def trace (step : σ → ℓ → Option σ) : σ → List ℓ → List (σ × ℓ)
  | _, [] => []
  | s, l :: ls => (s, l) :: ((step s l).map fun s' => trace step s' ls).getD []

theorem trace_append (ls' : List ℓ) : ∀ {ls : List ℓ} {s m : σ}, exec step s ls = some m →
    trace step s (ls ++ ls') = trace step s ls ++ trace step m ls'
  | [], s, m, h => by
    simp only [exec, Option.some.injEq] at h
    subst h
    rfl
  | l :: ls, s, m, h => by
    simp only [exec, Option.bind_eq_some_iff] at h
    obtain ⟨t, ht, h⟩ := h
    simp only [List.cons_append, trace, ht, Option.map_some, Option.getD_some, trace_append ls' h]

/-- The labels of a computed run are those it was given. -/
theorem label_mem_of_mem_trace {e : σ × ℓ} : ∀ {ls : List ℓ} {s : σ}, e ∈ trace step s ls → e.2 ∈ ls
  | [], s, h => absurd h List.not_mem_nil
  | l :: ls, s, h => by
    rcases List.mem_cons.mp h with rfl | h
    · exact List.mem_cons_self
    · cases hs : step s l with
      | none => simp [hs] at h
      | some m =>
        rw [hs] at h
        exact List.mem_cons_of_mem _ (label_mem_of_mem_trace h)

theorem Run.of_exec : ∀ {ls : List ℓ} {s s' : σ}, exec step s ls = some s' →
    Run step s (trace step s ls) s'
  | [], s, s', h => by
    simp only [exec, Option.some.injEq] at h
    subst h
    exact .refl
  | l :: ls, s, s', h => by
    simp only [exec, Option.bind_eq_some_iff] at h
    obtain ⟨m, hm, h⟩ := h
    simp only [trace, hm, Option.map_some, Option.getD_some]
    exact (Run.single hm).trans (Run.of_exec h)

/-- The run on labels that are possible. -/
theorem Run.of_isSome {ls : List ℓ} {s : σ} (h : (exec step s ls).isSome = true) :
    Run step s (trace step s ls) ((exec step s ls).get h) :=
  Run.of_exec (Option.some_get h).symm

end Transition
