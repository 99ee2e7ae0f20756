/-
# A loop that stops

A loop over a list that stops after the first member of a kind gets through a
prefix of it. What it does to the members it reaches depends on the order of
the list in one case only: if a member it is to act on may come after one that
stops it (`through_perm_iff`).

Key definitions: `List.through`.
Key theorems: `mem_through`, `through_perm_iff`, `filter_through_perm`.
-/
import Mathlib

namespace List

variable {α : Type*} {stop stop' act : α → Bool} {l l₁ l₂ : List α} {a b : α}

/-- The members up to the first that stops, that one included. -/
def through (stop : α → Bool) : List α → List α
  | [] => []
  | a :: l => if stop a then [a] else a :: through stop l

theorem through_sublist (stop : α → Bool) : ∀ l : List α, (through stop l).Sublist l
  | [] => .slnil
  | a :: l => by
    unfold through
    split
    · exact (nil_sublist l).cons_cons a
    · exact (through_sublist stop l).cons_cons a

theorem through_cons_of_stop (h : stop a = true) : through stop (a :: l) = [a] := if_pos h

theorem through_cons_of_go (h : stop a = false) : through stop (a :: l) = a :: through stop l :=
  if_neg (by simp [h])

theorem mem_through_head (stop : α → Bool) (a : α) (l : List α) : a ∈ through stop (a :: l) := by
  unfold through
  split <;> exact mem_cons_self

/-- A member that no other one stops the loop before is reached. -/
theorem mem_through : ∀ {l : List α}, a ∈ l → (∀ b ∈ l, stop b = true → b = a) → a ∈ through stop l
  | b :: l, ha, hall => by
    by_cases hb : stop b = true
    · rw [through_cons_of_stop hb, hall b mem_cons_self hb]
      exact mem_singleton_self a
    · rw [through_cons_of_go (by simpa using hb)]
      rcases mem_cons.mp ha with rfl | ha
      · exact mem_cons_self
      · exact mem_cons_of_mem _ (mem_through ha fun c hc => hall c (mem_cons_of_mem _ hc))

theorem through_congr : ∀ {l : List α}, (∀ a ∈ l, stop a = stop' a) → through stop l = through stop' l
  | [], _ => rfl
  | a :: l, h => by
    have ih := through_congr fun b hb => h b (mem_cons_of_mem _ hb)
    unfold through
    rw [h a mem_cons_self, ih]

/-- If no member to act on may come after one that stops, every one is reached. -/
theorem mem_filter_through (hno : ¬ ∃ x ∈ l, ∃ y ∈ l, x ≠ y ∧ act x = true ∧ stop y = true) (hl : l₁.Perm l) :
    a ∈ (through stop l₁).filter act ↔ a ∈ l ∧ act a = true := by
  rw [mem_filter]
  constructor
  · rintro ⟨hm, ha⟩
    exact ⟨hl.subset ((through_sublist stop l₁).subset hm), ha⟩
  · rintro ⟨hm, ha⟩
    refine ⟨mem_through (hl.symm.subset hm) fun b hb hstop => ?_, ha⟩
    by_contra hne
    exact hno ⟨a, hm, b, hl.subset hb, fun he => hne he.symm, ha, hstop⟩

theorem filter_through_perm (hno : ¬ ∃ x ∈ l, ∃ y ∈ l, x ≠ y ∧ act x = true ∧ stop y = true)
    (hno' : ¬ ∃ x ∈ l, ∃ y ∈ l, x ≠ y ∧ act x = true ∧ stop' y = true) (hl : l.Nodup) (h₁ : l₁.Perm l)
    (h₂ : l₂.Perm l) : ((through stop l₁).filter act).Perm ((through stop' l₂).filter act) := by
  have hnd : ∀ {l' : List α} {st : α → Bool}, l'.Perm l → ((through st l').filter act).Nodup := fun h' =>
    ((h'.nodup_iff.mpr hl).sublist (through_sublist _ _)).filter _
  refine (perm_ext_iff_of_nodup (hnd h₁) (hnd h₂)).mpr fun a => ?_
  rw [mem_filter_through hno h₁, mem_filter_through hno' h₂]

/-- **When the order does not matter.** Two such loops reach the same members to
act on, each in every order, if and only if none of these may come after
another member that stops one of the loops. -/
theorem through_perm_iff [DecidableEq α] :
    (∀ l₁ l₂, l₁.Perm l → l₂.Perm l →
      ∀ a, a ∈ (through stop l₁).filter act ↔ a ∈ (through stop' l₂).filter act) ↔
    ¬ ∃ x ∈ l, ∃ y ∈ l, x ≠ y ∧ act x = true ∧ (stop y = true ∨ stop' y = true) := by
  constructor
  · rintro hsame ⟨x, hx, y, hy, hne, hact, hstop⟩
    have hfirst : ∀ {st : α → Bool}, x ∈ (through st (x :: l.erase x)).filter act := fun {st} =>
      mem_filter.mpr ⟨mem_through_head st x _, hact⟩
    have hlast : ∀ {st : α → Bool}, st y = true → x ∉ (through st (y :: l.erase y)).filter act := fun {st} h hm => by
      rw [through_cons_of_stop h] at hm
      exact hne (mem_singleton.mp (mem_filter.mp hm).1)
    have hpx : (x :: l.erase x).Perm l := (perm_cons_erase hx).symm
    have hpy : (y :: l.erase y).Perm l := (perm_cons_erase hy).symm
    rcases hstop with h | h
    · exact hlast h ((hsame _ _ hpy hpx x).mpr hfirst)
    · exact hlast h ((hsame _ _ hpx hpy x).mp hfirst)
  · intro hno l₁ l₂ h₁ h₂ a
    rw [mem_filter_through ?_ h₁, mem_filter_through ?_ h₂]
    · rintro ⟨x, hx, y, hy, hne, hact, h⟩
      exact hno ⟨x, hx, y, hy, hne, hact, Or.inr h⟩
    · rintro ⟨x, hx, y, hy, hne, hact, h⟩
      exact hno ⟨x, hx, y, hy, hne, hact, Or.inl h⟩

end List
