/-
# Lines of a text

A text whose lines each end in a separator, and the reader that takes it apart
again: up to the next separator, or up to the end if something is left. The
reader gives the lines back exactly when no line holds the separator
(`lines_unlines_eq_iff`); a line that does is read as several (`lines_unlines`).
And a text less the separators at its two ends (`trim_cases`).

Key definitions: `lines`, `unlines`, `trim`.
Key theorems: `lines_append_sep`, `unlines_lines_snoc`, `lines_unlines`,
`lines_unlines_eq_iff`, `trim_cases`, `mem_trim_iff`.
-/
import Mathlib

namespace Lines

variable {α : Type*} (sep : α)

/-- The text of the lines `ls`. -/
def unlines (ls : List (List α)) : List α := ls.flatMap fun l => l ++ [sep]

@[simp] theorem unlines_nil : unlines sep [] = [] := rfl

@[simp] theorem unlines_cons (l : List α) (ls : List (List α)) :
    unlines sep (l :: ls) = l ++ sep :: unlines sep ls := by
  simp [unlines]

variable [DecidableEq α]

/-- The lines of a text, each without its separator. -/
def lines : List α → List (List α)
  | [] => []
  | c :: s =>
    if c = sep then [] :: lines s
    else
      match lines s with
      | [] => [[c]]
      | l :: ls => (c :: l) :: ls

@[simp] theorem lines_nil : lines sep [] = [] := rfl

/-- A line is read as one line more than it has separators. -/
theorem length_lines_snoc (s : List α) : (lines sep (s ++ [sep])).length = s.count sep + 1 := by
  induction s with
  | nil => simp [lines]
  | cons c s ih =>
    simp only [List.cons_append, lines, List.count_cons, beq_iff_eq]
    split
    · simp [ih]
    · cases hl : lines sep (s ++ [sep]) with
      | nil => simp [hl] at ih
      | cons => simpa [hl] using ih

/-- Reading up to a separator does not depend on what follows it. -/
theorem lines_append_sep (s t : List α) :
    lines sep (s ++ sep :: t) = lines sep (s ++ [sep]) ++ lines sep t := by
  induction s with
  | nil => simp [lines]
  | cons c s ih =>
    simp only [List.cons_append, lines, ih]
    split
    · rfl
    · cases hl : lines sep (s ++ [sep]) with
      | nil => simpa [hl] using length_lines_snoc sep s
      | cons => simp

theorem lines_snoc_of_notMem {s : List α} (h : sep ∉ s) : lines sep (s ++ [sep]) = [s] := by
  induction s with
  | nil => simp [lines]
  | cons c s ih =>
    simp only [List.mem_cons, not_or] at h
    simp [lines, ih h.2, Ne.symm h.1]

/-- What ends in a separator is the text of its lines. -/
theorem unlines_lines_snoc (s : List α) : unlines sep (lines sep (s ++ [sep])) = s ++ [sep] := by
  induction s with
  | nil => simp [lines]
  | cons c s ih =>
    simp only [List.cons_append, lines]
    split
    · rename_i hc
      rw [unlines_cons, ih, hc]
      rfl
    · cases hl : lines sep (s ++ [sep]) with
      | nil => simpa [hl] using length_lines_snoc sep s
      | cons l ls =>
        rw [hl, unlines_cons] at ih
        rw [unlines_cons, List.cons_append, ih]

/-- The lines of a text of lines, each line on its own. -/
theorem lines_unlines (ls : List (List α)) :
    lines sep (unlines sep ls) = ls.flatMap fun l => lines sep (l ++ [sep]) := by
  induction ls with
  | nil => rfl
  | cons l ls ih => rw [unlines_cons, lines_append_sep, ih, List.flatMap_cons]

theorem notMem_of_mem_lines {s l : List α} (h : l ∈ lines sep s) : sep ∉ l := by
  induction s generalizing l with
  | nil => simp at h
  | cons c s ih =>
    simp only [lines] at h
    split at h
    · rcases List.mem_cons.mp h with rfl | h
      · simp
      · exact ih h
    · rename_i hc
      cases hl : lines sep s with
      | nil =>
        rw [hl] at h
        rw [List.mem_singleton.mp h]
        simp [Ne.symm hc]
      | cons m ms =>
        rw [hl] at h ih
        rcases List.mem_cons.mp h with rfl | h
        · simp [Ne.symm hc, ih List.mem_cons_self]
        · exact ih (List.mem_cons_of_mem _ h)

/-- The round trip: a list of lines is read back exactly if no line holds the separator. -/
theorem lines_unlines_eq_iff {ls : List (List α)} :
    lines sep (unlines sep ls) = ls ↔ ∀ l ∈ ls, sep ∉ l := by
  constructor
  · intro h l hl
    rw [← h] at hl
    exact notMem_of_mem_lines sep hl
  · intro h
    rw [lines_unlines]
    induction ls with
    | nil => rfl
    | cons l ls ih =>
      simp only [List.forall_mem_cons] at h
      rw [List.flatMap_cons, lines_snoc_of_notMem sep h.1, ih h.2]
      rfl

/-! ### The ends of a text -/

/-- A text less the separators it begins and ends with. -/
def trim (s : List α) : List α := (s.dropWhile (· = sep)).rdropWhile (· = sep)

variable {sep}

theorem takeWhile_eq_replicate (s : List α) :
    s.takeWhile (· = sep) = List.replicate (s.takeWhile (· = sep)).length sep :=
  List.eq_replicate_of_mem fun _ hc => by simpa using List.mem_takeWhile_imp hc

theorem rtakeWhile_eq_replicate (s : List α) :
    s.rtakeWhile (· = sep) = List.replicate (s.rtakeWhile (· = sep)).length sep :=
  List.eq_replicate_of_mem fun _ hc => by simpa using List.mem_rtakeWhile_imp hc

theorem trim_eq_nil_iff {s : List α} : trim sep s = [] ↔ ∀ c ∈ s, c = sep := by
  rw [trim, List.rdropWhile_eq_nil_iff]
  constructor
  · intro h c hc
    rw [← List.takeWhile_append_dropWhile (p := (· = sep)) (l := s), List.mem_append] at hc
    rcases hc with hc | hc
    · simpa using List.mem_takeWhile_imp hc
    · exact of_decide_eq_true (h c hc)
  · intro h c hc
    exact decide_eq_true (h c ((List.dropWhile_sublist _).subset hc))

/-- A text is separators only, or it has something between those at its ends
that neither begins nor ends with one. -/
theorem trim_cases (sep : α) (s : List α) : (s = List.replicate s.length sep ∧ trim sep s = []) ∨
    ∃ b e, s = List.replicate b sep ++ trim sep s ++ List.replicate e sep ∧ trim sep s ≠ [] ∧
      (trim sep s).head? ≠ some sep ∧ (trim sep s).getLast? ≠ some sep := by
  by_cases hnil : trim sep s = []
  · exact Or.inl ⟨List.eq_replicate_of_mem (trim_eq_nil_iff.mp hnil), hnil⟩
  · refine Or.inr ⟨(s.takeWhile (· = sep)).length, ((s.dropWhile (· = sep)).rtakeWhile (· = sep)).length,
      ?_, hnil, ?_, ?_⟩
    · rw [← takeWhile_eq_replicate s, List.append_assoc, trim, ← rtakeWhile_eq_replicate,
        List.rdropWhile_append_rtakeWhile, List.takeWhile_append_dropWhile]
    · obtain ⟨t, ht⟩ : trim sep s <+: s.dropWhile (· = sep) := List.rdropWhile_prefix _ _
      have hhead : (trim sep s).head? = (s.dropWhile (· = sep)).head? := by
        rw [← ht, List.head?_append_of_ne_nil _ hnil]
      rw [hhead]
      intro hc
      have hnot := List.head?_dropWhile_not (· = sep) s
      rw [hc] at hnot
      simp at hnot
    · rw [List.getLast?_eq_some_getLast hnil, ne_eq, Option.some.injEq]
      exact fun hc => List.rdropWhile_last_not _ _ hnil (decide_eq_true hc)

theorem mem_trim_iff {s : List α} {c : α} (hc : c ≠ sep) : c ∈ trim sep s ↔ c ∈ s := by
  rcases trim_cases sep s with ⟨hs, htrim⟩ | ⟨b, e, hs, -⟩
  · rw [htrim, hs]
    simp [hc]
  · conv_rhs => rw [hs]
    simp [hc]

end Lines
