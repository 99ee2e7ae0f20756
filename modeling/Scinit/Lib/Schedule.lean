/-
# What comes before what

Activities start and finish. One may have to be finished when another starts, or
to be under way then; that says of some starts and finishes that they come before
others (`Before`). In a run what comes before a moment has to pass before it, so if
every moment passes, none comes before itself (`acc_of_passed`). The other way
round, while there is a moment left and none comes before itself, one of those
left is next (`exists_next`).

Key definitions: `Moment`, `Moment.Before`.
Key theorems: `acc_of_passed`, `exists_next`.
-/
import Scinit.Lib.Run

/-- Something starts or finishes. -/
inductive Moment (ι : Type*)
  | start (i : ι)
  | finish (i : ι)
  deriving DecidableEq

namespace Moment

variable {ι : Type*}

/-- The order of the moments, where `after i j` says that `j` has to be finished when `i`
starts, and `during i j` that it has to be under way. -/
inductive Before (after during : ι → ι → Prop) : Moment ι → Moment ι → Prop
  | own (i : ι) : Before after during (.start i) (.finish i)
  | after {i j : ι} : after i j → Before after during (.finish j) (.start i)
  | started {i j : ι} : during i j → Before after during (.start j) (.start i)
  | during {i j : ι} : during i j → Before after during (.start i) (.finish j)

instance [Finite ι] : Finite (Moment ι) :=
  Finite.of_surjective (fun i : ι ⊕ ι => i.elim start finish) fun m => by
    cases m with
    | start i => exact ⟨.inl i, rfl⟩
    | finish i => exact ⟨.inr i, rfl⟩

end Moment

namespace Transition

variable {σ ℓ α : Type*} {step : σ → ℓ → Option σ} {s₀ s u : σ} {tr post : List (σ × ℓ)} {R : α → α → Prop}
  {passed : σ → α → Prop}

/-- In the runs that end in `u`, what passes has nothing endless before it: all that `R`
puts before it has passed in an earlier step. -/
theorem acc_of_passed (h0 : ∀ a, passed s₀ a → ∀ b, ¬ R b a)
    (hstep : ∀ tr s l s' post, Run step s₀ tr s → step s l = some s' → Run step s' post u →
      ∀ a, passed s' a → ¬ passed s a → ∀ b, R b a → passed s b)
    (h : Run step s₀ tr s) (hu : Run step s post u) : ∀ a, passed s a → Acc R a := by
  induction h generalizing post with
  | refl => exact fun a ha => ⟨a, fun b hb => absurd hb (h0 a ha b)⟩
  | @snoc tr s s' l h hs ih =>
    have ih := ih ((Run.single hs).trans hu)
    intro a ha
    by_cases hold : passed s a
    · exact ih a hold
    · exact ⟨a, fun b hb => ih b (hstep tr s l s' post h hs hu a ha hold b hb)⟩

/-- Of finitely many that are left, one is next, if none comes before itself. -/
theorem exists_next [Finite α] (hac : ∀ a, ¬ Relation.TransGen R a a) {P : α → Prop} {a : α} (ha : ¬ P a) :
    ∃ b, ¬ P b ∧ ∀ c, R c b → P c := by
  have htrans : IsTrans α (Relation.TransGen R) := ⟨fun _ _ _ => Relation.TransGen.trans⟩
  have hirr : Std.Irrefl (Relation.TransGen R) := ⟨hac⟩
  obtain ⟨b, hb, hmin⟩ := (Finite.wellFounded_of_trans_of_irrefl (Relation.TransGen R)).has_min {b | ¬ P b} ⟨a, ha⟩
  refine ⟨b, hb, fun c hc => ?_⟩
  by_contra hnot
  exact hmin c hnot (.single hc)

end Transition
