/-
# What has to have happened first

An event is what a step of a run may be: `ev` names it. A relation `R` says of
an event which others have to have happened before it. If every single step
keeps to `R`, then so do chains of `R`: what an event needs through others has
happened before it too, and an event that needs itself never happens.

Key definitions: `Happened`, `Precedes`.
Key theorems: `Precedes.transGen`, `Precedes.not_happened`.
-/
import Scinit.Lib.Run

namespace Transition

variable {σ ℓ ι : Type*} {step : σ → ℓ → Option σ} {s₀ s : σ} {ev : σ → ℓ → Option ι}
  {R : ι → ι → Prop} {tr tr' : List (σ × ℓ)} {i j : ι}

/-- The event `i` is one of the steps. -/
def Happened (ev : σ → ℓ → Option ι) (tr : List (σ × ℓ)) (i : ι) : Prop := ∃ e ∈ tr, ev e.1 e.2 = some i

/-- In the runs from `s₀`, what `R` relates an event to has happened when the event happens. -/
def Precedes (step : σ → ℓ → Option σ) (s₀ : σ) (ev : σ → ℓ → Option ι) (R : ι → ι → Prop) : Prop :=
  ∀ tr s l s', Run step s₀ tr s → step s l = some s' → ∀ i j, ev s l = some i → R i j → Happened ev tr j

theorem Happened.mono (h : Happened ev tr i) (hsub : tr ⊆ tr') : Happened ev tr' i := by
  obtain ⟨e, he, hi⟩ := h
  exact ⟨e, hsub he, hi⟩

/-- A run up to where an event happened. -/
theorem Happened.before (h : Happened ev tr i) (hrun : Run step s₀ tr s) : ∃ pre t l post t',
    tr = pre ++ (t, l) :: post ∧ Run step s₀ pre t ∧ step t l = some t' ∧ ev t l = some i := by
  obtain ⟨⟨t, l⟩, hm, hi⟩ := h
  obtain ⟨pre, post, t', rfl, hpre, hs, -⟩ := hrun.step_of_mem hm
  exact ⟨pre, t, l, post, t', rfl, hpre, hs, hi⟩

namespace Precedes

/-- What one event needs has happened in a run in which it happened. -/
theorem happened (h : Precedes step s₀ ev R) (hrun : Run step s₀ tr s) (hi : Happened ev tr i) (hij : R i j) :
    Happened ev tr j := by
  obtain ⟨pre, t, l, post, t', rfl, hpre, hs, hev⟩ := hi.before hrun
  exact (h pre t l t' hpre hs i j hev hij).mono (List.subset_append_left _ _)

/-- **Chains.** What an event needs through others has happened before it. -/
theorem transGen (h : Precedes step s₀ ev R) : Precedes step s₀ ev (Relation.TransGen R) := by
  intro tr s l s' hrun hs i j hi hij
  induction hij with
  | single hij => exact h tr s l s' hrun hs i _ hi hij
  | tail _ hjk ih => exact h.happened hrun ih hjk

/-- An event that needs itself never happens: its first time would not be the first. -/
theorem not_happened_self (h : Precedes step s₀ ev R) (hii : R i i) :
    ∀ {tr : List (σ × ℓ)} {s : σ}, Run step s₀ tr s → ¬ Happened ev tr i := by
  intro tr
  induction tr using List.reverseRecOn with
  | nil => exact fun _ hi => by simp [Happened] at hi
  | append_singleton tr e ih =>
    intro s hrun hi
    obtain ⟨m, hpre, hlast⟩ := Run.append_iff.mp hrun
    obtain ⟨rfl, hs⟩ := Run.single_iff.mp hlast
    obtain ⟨e', he', hi⟩ := hi
    rcases List.mem_append.mp he' with he' | he'
    · exact ih hpre ⟨e', he', hi⟩
    · obtain rfl := List.mem_singleton.mp he'
      exact ih hpre (h _ _ _ _ hpre hs i i hi hii)

/-- **Cycles.** No event that needs itself through others happens, nor any that needs such a one. -/
theorem not_happened (h : Precedes step s₀ ev R) (hrun : Run step s₀ tr s) (hij : Relation.ReflTransGen R i j)
    (hjj : Relation.TransGen R j j) : ¬ Happened ev tr i := by
  intro hi
  refine h.transGen.not_happened_self hjj hrun ?_
  rcases Relation.reflTransGen_iff_eq_or_transGen.mp hij with rfl | hij
  · exact hi
  · exact h.transGen.happened hrun hi hij

end Precedes

end Transition
