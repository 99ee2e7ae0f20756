/-
# Maps to which entries are added in order

Adding the entries of a list to a map one by one, the last entry of a key is
the one that stays (`getElem?_insertAll`). `last` is that entry's value, as a
function of the list alone.

Key definitions: `last`, `insertAll`.
Key theorems: `last_cons_of_notMem`, `last_filter`, `getElem?_insertAll`.
-/
import Mathlib

namespace LastWins

variable {κ ν : Type}

section Last

variable [DecidableEq κ]

/-- The value of the last entry of the key `k`. -/
def last (k : κ) : List (κ × ν) → Option ν
  | [] => none
  | kv :: kvs => (last k kvs).or (if kv.1 = k then some kv.2 else none)

@[simp] theorem last_nil (k : κ) : last k ([] : List (κ × ν)) = none := rfl

theorem last_cons (k : κ) (kv : κ × ν) (kvs : List (κ × ν)) :
    last k (kv :: kvs) = (last k kvs).or (if kv.1 = k then some kv.2 else none) := rfl

theorem mem_of_last_eq_some {k : κ} {v : ν} : ∀ {kvs : List (κ × ν)}, last k kvs = some v → (k, v) ∈ kvs
  | [], h => by cases h
  | kv :: kvs, h => by
    rw [last_cons, Option.or_eq_some_iff] at h
    rcases h with h | ⟨-, h⟩
    · exact List.mem_cons_of_mem _ (mem_of_last_eq_some h)
    · simp only [Option.ite_none_right_eq_some, Option.some.injEq] at h
      obtain ⟨rfl, rfl⟩ := h
      exact List.mem_cons_self

theorem last_eq_none {k : κ} : ∀ {kvs : List (κ × ν)}, k ∉ kvs.map Prod.fst → last k kvs = none
  | [], _ => rfl
  | kv :: kvs, h => by
    rw [List.map_cons, List.mem_cons, not_or] at h
    rw [last_cons, last_eq_none h.2, Option.none_or, if_neg (Ne.symm h.1)]

/-- An entry whose key does not come again is the one that stays. -/
theorem last_cons_of_notMem {a : κ} {v : ν} {kvs : List (κ × ν)} (h : a ∉ kvs.map Prod.fst) (k : κ) :
    last k ((a, v) :: kvs) = if k = a then some v else last k kvs := by
  rw [last_cons]
  by_cases hk : k = a
  · rw [hk, last_eq_none h, Option.none_or, if_pos rfl]
  · rw [if_neg (Ne.symm hk), Option.or_none, if_neg hk]

/-- Leaving out keys leaves the others their values. -/
theorem last_filter (q : κ → Bool) (k : κ) (kvs : List (κ × ν)) :
    last k (kvs.filter fun kv => q kv.1) = if q k then last k kvs else none := by
  induction kvs with
  | nil => simp
  | cons kv kvs ih =>
    rw [List.filter_cons, last_cons]
    by_cases hk : kv.1 = k
    · rw [hk, if_pos rfl]
      split
      · rw [last_cons, ih, if_pos ‹_›, if_pos hk]
      · rw [ih, if_neg ‹_›]
    · rw [if_neg hk, Option.or_none, ← ih]
      split
      · rw [last_cons, if_neg hk, Option.or_none]
      · rfl

end Last

section Map

variable [Ord κ] [Std.TransOrd κ]

/-- Adding entries one by one. -/
def insertAll (m : Std.ExtTreeMap κ ν) (kvs : List (κ × ν)) : Std.ExtTreeMap κ ν :=
  kvs.foldl (fun m kv => m.insert kv.1 kv.2) m

theorem insertAll_snoc (m : Std.ExtTreeMap κ ν) (kvs : List (κ × ν)) (k : κ) (v : ν) :
    insertAll m (kvs ++ [(k, v)]) = (insertAll m kvs).insert k v := List.foldl_concat _ _ _ _

theorem getElem?_insert [DecidableEq κ] [Std.LawfulEqOrd κ] (m : Std.ExtTreeMap κ ν) (a k : κ) (v : ν) :
    (m.insert a v)[k]? = (if a = k then some v else none).or m[k]? := by
  rw [Std.ExtTreeMap.getElem?_insert]
  by_cases hk : a = k
  · rw [if_pos (Std.LawfulEqCmp.compare_eq_iff_eq.mpr hk), if_pos hk, Option.some_or]
  · rw [if_neg fun h => hk (Std.LawfulEqCmp.compare_eq_iff_eq.mp h), if_neg hk, Option.none_or]

/-- **The last entry of a key** is the one that stays. -/
theorem getElem?_insertAll [DecidableEq κ] [Std.LawfulEqOrd κ] (kvs : List (κ × ν)) (m : Std.ExtTreeMap κ ν)
    (k : κ) : (insertAll m kvs)[k]? = (last k kvs).or m[k]? := by
  induction kvs generalizing m with
  | nil => rfl
  | cons kv kvs ih =>
    calc (insertAll m (kv :: kvs))[k]?
        = (last k kvs).or (m.insert kv.1 kv.2)[k]? := ih _
      _ = (last k (kv :: kvs)).or m[k]? := by rw [getElem?_insert, last_cons, Option.or_assoc]

end Map

end LastWins
