/-
# Association lists to which the first entry of a key is added

`add` appends an entry unless its key is there. After adding the entries of a
list one by one (`addAll`) the keys are those of the list, each once, and the
value of a key is that of its first entry.

Key definitions: `add`, `addAll`.
Key theorems: `mem_keys_addAll`, `nodup_keys_addAll`, `mem_addAll_iff`,
`addAll_eq_nil_iff`.
-/
import Mathlib

namespace FirstWins

variable {κ ν : Type*} [DecidableEq κ]

/-- Adding an entry: one of the same key that is already there wins. -/
def add (es : List (κ × ν)) (e : κ × ν) : List (κ × ν) :=
  if es.any (fun x => x.1 = e.1) then es else es ++ [e]

/-- Adding entries one by one. -/
def addAll (es l : List (κ × ν)) : List (κ × ν) := l.foldl add es

@[simp] theorem addAll_nil (es : List (κ × ν)) : addAll es [] = es := rfl

@[simp] theorem addAll_cons (es l : List (κ × ν)) (e : κ × ν) :
    addAll es (e :: l) = addAll (add es e) l := rfl

theorem addAll_append (es l l' : List (κ × ν)) :
    addAll es (l ++ l') = addAll (addAll es l) l' := List.foldl_append

theorem mem_keys_add {es : List (κ × ν)} {e : κ × ν} {k : κ} :
    k ∈ (add es e).map Prod.fst ↔ k ∈ es.map Prod.fst ∨ k = e.1 := by
  unfold add
  split
  · rename_i h
    simp only [List.any_eq_true, decide_eq_true_eq] at h
    obtain ⟨x, hx, hxe⟩ := h
    constructor
    · exact Or.inl
    · rintro (h | rfl)
      · exact h
      · exact List.mem_map.mpr ⟨x, hx, hxe⟩
  · simp

theorem mem_keys_addAll {es l : List (κ × ν)} {k : κ} :
    k ∈ (addAll es l).map Prod.fst ↔ k ∈ es.map Prod.fst ∨ k ∈ l.map Prod.fst := by
  induction l generalizing es with
  | nil => simp
  | cons e l ih => rw [addAll_cons, ih, mem_keys_add, List.map_cons, List.mem_cons, or_assoc]

theorem nodup_keys_add {es : List (κ × ν)} (h : (es.map Prod.fst).Nodup) (e : κ × ν) :
    ((add es e).map Prod.fst).Nodup := by
  unfold add
  split
  · exact h
  · rename_i hn
    simp only [List.any_eq_true, decide_eq_true_eq, not_exists, not_and] at hn
    rw [List.map_append, List.nodup_append]
    refine ⟨h, by simp, fun a ha b hb hab => ?_⟩
    obtain ⟨x, hx, rfl⟩ := List.mem_map.mp ha
    simp only [List.map_cons, List.map_nil, List.mem_singleton] at hb
    exact hn x hx (hab.trans hb)

/-- Every key is there once. -/
theorem nodup_keys_addAll {es : List (κ × ν)} (h : (es.map Prod.fst).Nodup) (l : List (κ × ν)) :
    ((addAll es l).map Prod.fst).Nodup := by
  induction l generalizing es with
  | nil => exact h
  | cons e l ih => exact ih (nodup_keys_add h e)

theorem find?_add (es : List (κ × ν)) (e : κ × ν) (k : κ) :
    (add es e).find? (fun x => x.1 = k) = (es ++ [e]).find? (fun x => x.1 = k) := by
  unfold add
  split
  · rename_i h
    simp only [List.any_eq_true, decide_eq_true_eq] at h
    obtain ⟨x, hx, hxe⟩ := h
    rw [List.find?_append]
    by_cases hk : e.1 = k
    · obtain ⟨y, hy⟩ := List.find?_isSome (p := fun y : κ × ν => decide (y.1 = k)) |>.mpr
        ⟨x, hx, by simp [hxe, hk]⟩ |> Option.isSome_iff_exists.mp
      simp [hy]
    · simp [hk]
  · rfl

theorem find?_addAll (es l : List (κ × ν)) (k : κ) :
    (addAll es l).find? (fun x => x.1 = k) = (es ++ l).find? (fun x => x.1 = k) := by
  induction l generalizing es with
  | nil => simp
  | cons e l ih =>
    rw [addAll_cons, ih, List.find?_append, find?_add, ← List.find?_append]
    simp

theorem mem_iff_find? {es : List (κ × ν)} (h : (es.map Prod.fst).Nodup) {e : κ × ν} :
    e ∈ es ↔ es.find? (fun x => x.1 = e.1) = some e := by
  constructor
  · intro he
    induction es with
    | nil => cases he
    | cons x xs ih =>
      simp only [List.map_cons, List.nodup_cons] at h
      rcases List.mem_cons.mp he with rfl | he
      · simp
      · have hne : x.1 ≠ e.1 := fun hx => h.1 (hx ▸ List.mem_map.mpr ⟨e, he, rfl⟩)
        simp [hne, ih h.2 he]
  · exact List.mem_of_find?_eq_some

/-- The value of a key is that of its first entry. -/
theorem mem_addAll_iff {es : List (κ × ν)} (h : (es.map Prod.fst).Nodup) {l : List (κ × ν)}
    {e : κ × ν} : e ∈ addAll es l ↔ (es ++ l).find? (fun x => x.1 = e.1) = some e := by
  rw [mem_iff_find? (nodup_keys_addAll h l), find?_addAll]

theorem mem_of_mem_addAll {es l : List (κ × ν)} {e : κ × ν} (h : e ∈ addAll es l) : e ∈ es ++ l := by
  induction l generalizing es with
  | nil => simpa using h
  | cons x l ih =>
    have := ih h
    unfold add at this
    split at this
    · simp only [List.mem_append, List.mem_cons] at this ⊢
      tauto
    · simpa using this

/-- With lists added one after the other, an entry that is there comes from the
first list that has its key. -/
theorem first_of_mem_addAll {α : Type*} {l : List α} {f : α → List (κ × ν)} {e : κ × ν}
    (h : e ∈ addAll [] (l.flatMap f)) : ∃ l₁ x l₂, l = l₁ ++ x :: l₂ ∧ e ∈ f x ∧
      ∀ y ∈ l₁, ∀ e' ∈ f y, e'.1 ≠ e.1 := by
  rw [mem_addAll_iff (by simp), List.nil_append, List.find?_flatMap, List.findSome?_eq_some_iff] at h
  obtain ⟨l₁, x, l₂, rfl, hx, hno⟩ := h
  refine ⟨l₁, x, l₂, rfl, List.mem_of_find?_eq_some hx, fun y hy e' he' hk => ?_⟩
  have := List.find?_eq_none.mp (hno y hy) e' he'
  exact this (decide_eq_true hk)

theorem add_ne_nil (es : List (κ × ν)) (e : κ × ν) : add es e ≠ [] := by
  intro h
  have hk : e.1 ∈ (add es e).map Prod.fst := mem_keys_add.mpr (Or.inr rfl)
  simp [h] at hk

theorem addAll_eq_nil_iff {es l : List (κ × ν)} : addAll es l = [] ↔ es = [] ∧ l = [] := by
  induction l generalizing es with
  | nil => simp
  | cons e l ih => simp [ih, add_ne_nil]

end FirstWins
