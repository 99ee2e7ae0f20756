/-
# The variables taken from the host

The first loop of `handle_env`: an entry of `environ` is split at its first
`=`, and what is after it is kept if the name is whitelisted, over what an
earlier entry of the name gave. An entry without a `=` is meant to be refused
like one that starts with it, but `pos` is unsigned and `npos` is not `<= 0`,
so it is taken for a variable whose name and value are the whole entry
(`scanned_right_iff`).

Key definitions: `splitEntry`, `hostValue`, `ScannedRight`.
Key theorems: `scanEnviron_eq`, `scanEnviron_get`, `scanned_right_iff`.
-/
import Scinit.Environment
import Scinit.Lib.LastWins

namespace Scinit

variable {allowed environ : List Text} {vars vars' : Vars} {var name value k : Text}

/-! ### One entry -/

/-- The texts before and after the first `=` of an entry, if it has one. -/
def splitEntry (var : Text) : Option (Text × Text) :=
  match var.dropWhile (· ≠ '=') with
  | [] => none
  | _ :: value => some (var.takeWhile (· ≠ '='), value)

theorem splitEntry_assignment (h : '=' ∉ name) : splitEntry (assignment (name, value)) = some (name, value) := by
  have hne : ∀ c ∈ name, decide (c ≠ '=') = true := fun c hc => decide_eq_true fun he => h (he ▸ hc)
  have hdrop : (assignment (name, value)).dropWhile (· ≠ '=') = '=' :: value := by
    rw [assignment, List.dropWhile_append_of_pos hne]
    rfl
  have htake : (assignment (name, value)).takeWhile (· ≠ '=') = name := by
    rw [assignment, List.takeWhile_append_of_pos hne]
    exact List.append_nil name
  rw [splitEntry, hdrop, htake]

theorem splitEntry_eq_none (h : '=' ∉ var) : splitEntry var = none := by
  have hdrop : var.dropWhile (· ≠ '=') = [] :=
    List.dropWhile_eq_nil_iff.mpr fun c hc => decide_eq_true fun he => h (he ▸ hc)
  rw [splitEntry, hdrop]

/-- An entry with a `=` is `name=value`. -/
theorem eq_assignment_of_mem (h : '=' ∈ var) : ∃ name value, var = assignment (name, value) ∧ '=' ∉ name := by
  induction var with
  | nil => exact absurd h List.not_mem_nil
  | cons c var ih =>
    by_cases hc : c = '='
    · exact ⟨[], var, by rw [hc]; rfl, List.not_mem_nil⟩
    · obtain ⟨name, value, rfl, hn⟩ := ih ((List.mem_cons.mp h).resolve_left (Ne.symm hc))
      refine ⟨c :: name, value, rfl, fun hm => ?_⟩
      exact (List.mem_cons.mp hm).elim (fun he => hc he.symm) hn

theorem eq_of_splitEntry (h : splitEntry var = some (name, value)) : var = assignment (name, value) := by
  by_cases hm : '=' ∈ var
  · obtain ⟨name', value', rfl, hn⟩ := eq_assignment_of_mem hm
    rw [splitEntry_assignment hn, Option.some.injEq] at h
    rw [h]
  · rw [splitEntry_eq_none hm] at h
    cases h

/-- The code splits at the same place. -/
theorem splitVar_assignment (h : '=' ∉ name) :
    splitVar (assignment (name, value)) = (some name.length, name, value) := by
  have hnone : name.findIdx? (· = '=') = none :=
    List.findIdx?_eq_none_iff.mpr fun c hc => decide_eq_false fun he => h (he ▸ hc)
  have hpos : (assignment (name, value)).findIdx? (· = '=') = some name.length := by
    rw [assignment, List.findIdx?_append, hnone, Option.none_or, List.findIdx?_cons]
    simp
  rw [splitVar, hpos]
  simp [assignment]

theorem splitVar_of_notMem (h : '=' ∉ var) : splitVar var = (none, var, var) := by
  have hnone : var.findIdx? (· = '=') = none :=
    List.findIdx?_eq_none_iff.mpr fun c hc => decide_eq_false fun he => h (he ▸ hc)
  rw [splitVar, hnone]

theorem splitVar_fst_iff : (splitVar var).1 = some 0 ↔ var.head? = some '=' := by
  by_cases h : '=' ∈ var
  · obtain ⟨name, value, rfl, hn⟩ := eq_assignment_of_mem h
    rw [splitVar_assignment hn]
    cases name with
    | nil => simp [assignment]
    | cons c name =>
      have hc : c ≠ '=' := fun he => hn (he ▸ List.mem_cons_self)
      simp [assignment, hc]
  · rw [splitVar_of_notMem h]
    refine iff_of_false (Option.some_ne_none _).symm fun hhead => h (List.mem_of_mem_head? hhead)

/-! ### The loop -/

/-- What `handle_env` throws at an entry. -/
def environExn : Exn := .childProcess "ERROR: Couldn't find '=' in environment variable string!"

theorem scanVar_of_head (h : var.head? = some '=') : scanVar allowed vars var = .error environExn := by
  obtain ⟨key, hkey⟩ : ∃ kv, splitVar var = (some 0, kv) := ⟨_, Prod.ext (splitVar_fst_iff.mpr h) rfl⟩
  rw [scanVar, hkey]
  rfl

theorem scanVar_of_head_ne (h : var.head? ≠ some '=') : scanVar allowed vars var =
    .ok (if (splitVar var).2.1 ∈ allowed then vars.insert (splitVar var).2.1 (splitVar var).2.2 else vars) := by
  have hne : (splitVar var).1 ≠ some 0 := fun hz => h (splitVar_fst_iff.mp hz)
  unfold scanVar
  split
  · rename_i hz
    exact absurd (congrArg Prod.fst hz) hne
  · rename_i hs
    rw [hs]

/-- The loop throws at the first entry that starts with `=`. -/
theorem scanEnviron_error (h : ∃ var ∈ environ, var.head? = some '=') :
    scanEnviron allowed environ = .error environExn := by
  have hloop : ∀ (environ : List Text) (vars : Vars), (∃ var ∈ environ, var.head? = some '=') →
      environ.foldlM (scanVar allowed) vars = .error environExn := by
    intro environ
    induction environ with
    | nil => exact fun vars h => absurd h (by simp)
    | cons var environ ih =>
      intro vars h
      rw [List.foldlM_cons]
      by_cases hv : var.head? = some '='
      · rw [scanVar_of_head hv]
        rfl
      · rw [scanVar_of_head_ne hv]
        refine ih _ ?_
        simpa [hv] using h
  exact hloop environ ∅ h

/-- **The scan**: where no entry starts with `=`, it keeps the whitelisted ones in order. -/
theorem scanEnviron_eq (h : ∀ var ∈ environ, var.head? ≠ some '=') : scanEnviron allowed environ =
    .ok (LastWins.insertAll ∅ ((environ.map fun var => (splitVar var).2).filter fun kv => kv.1 ∈ allowed)) := by
  have hloop : ∀ (environ : List Text) (vars : Vars), (∀ var ∈ environ, var.head? ≠ some '=') →
      environ.foldlM (scanVar allowed) vars = .ok (LastWins.insertAll vars
        ((environ.map fun var => (splitVar var).2).filter fun kv => kv.1 ∈ allowed)) := by
    intro environ
    induction environ with
    | nil => exact fun vars _ => rfl
    | cons var environ ih =>
      intro vars h
      rw [List.forall_mem_cons] at h
      rw [List.foldlM_cons, scanVar_of_head_ne h.1, List.map_cons, List.filter_cons]
      refine (ih _ h.2).trans ?_
      by_cases hk : (splitVar var).2.1 ∈ allowed
      · simp only [hk, if_true, decide_true]
        rfl
      · simp only [hk, if_false, decide_false, Bool.false_eq_true]
  exact hloop environ ∅ h

theorem scanEnviron_get (h : scanEnviron allowed environ = .ok vars) (k : Text) :
    vars[k]? = if k ∈ allowed then LastWins.last k (environ.map fun var => (splitVar var).2) else none := by
  by_cases hbad : ∃ var ∈ environ, var.head? = some '='
  · rw [scanEnviron_error hbad] at h
    cases h
  · push Not at hbad
    rw [scanEnviron_eq hbad, Except.ok.injEq] at h
    rw [← h, LastWins.getElem?_insertAll, LastWins.last_filter fun k => decide (k ∈ allowed)]
    simp

/-! ### What the scan is for -/

/-- The value of the last entry of the name. -/
def hostValue (environ : List Text) (k : Text) : Option Text := LastWins.last k (environ.filterMap splitEntry)

/-- Where every entry has a `=`, the code reads each as what it says. -/
theorem map_splitVar (h : ∀ var ∈ environ, '=' ∈ var) :
    (environ.map fun var => (splitVar var).2) = environ.filterMap splitEntry := by
  induction environ with
  | nil => rfl
  | cons var environ ih =>
    rw [List.forall_mem_cons] at h
    obtain ⟨name, value, rfl, hn⟩ := eq_assignment_of_mem h.1
    rw [List.map_cons, ih h.2, splitVar_assignment hn, List.filterMap_cons_some (splitEntry_assignment hn)]

/-- Where every entry has a `=`, the scan takes the values of the whitelisted names. -/
theorem scanned_get (h : scanEnviron allowed environ = .ok vars) (hall : ∀ var ∈ environ, '=' ∈ var) (k : Text) :
    vars[k]? = if k ∈ allowed then hostValue environ k else none := by
  rw [scanEnviron_get h, map_splitVar hall, hostValue]

/-- The scan throws exactly at entries without a name, and what it takes from
the host are the values of the whitelisted names. -/
structure ScannedRight (allowed environ : List Text) : Prop where
  throws : (∃ what, scanEnviron allowed environ = .error (.childProcess what)) ↔
    ∃ var ∈ environ, '=' ∉ var ∨ var.head? = some '='
  vars : ∀ vars, scanEnviron allowed environ = .ok vars →
    ∀ k : Text, vars[k]? = if k ∈ allowed then hostValue environ k else none

/-- **The host's variables are read right** if and only if every entry has a
`=`, or one of them starts with it. -/
theorem scanned_right_iff : ScannedRight allowed environ ↔
    (∀ var ∈ environ, '=' ∈ var) ∨ ∃ var ∈ environ, var.head? = some '=' := by
  by_cases hbad : ∃ var ∈ environ, var.head? = some '='
  · -- the scan throws, as it should
    refine iff_of_true ⟨iff_of_true ⟨_, scanEnviron_error hbad⟩ ?_, fun vars h => ?_⟩ (Or.inr hbad)
    · obtain ⟨var, hm, hv⟩ := hbad
      exact ⟨var, hm, Or.inr hv⟩
    · rw [scanEnviron_error hbad] at h
      cases h
  · have hgood := hbad
    push Not at hgood
    have hnothrow : ¬ ∃ what, scanEnviron allowed environ = .error (.childProcess what) := by
      rintro ⟨what, h⟩
      rw [scanEnviron_eq hgood] at h
      cases h
    constructor
    · intro hr
      refine Or.inl fun var hm => ?_
      by_contra hn
      exact hnothrow (hr.throws.mpr ⟨var, hm, Or.inl hn⟩)
    · intro h
      have hall := h.resolve_right hbad
      refine ⟨iff_of_false hnothrow ?_, fun vars hv k => scanned_get hv hall k⟩
      rintro ⟨var, hm, hn | hv⟩
      · exact hn (hall var hm)
      · exact hgood var hm hv

/-- An entry without a `=` is not refused. -/
theorem nameless_accepted : ¬ ∀ allowed environ : List Text, ScannedRight allowed environ := by
  intro hall
  obtain ⟨what, h⟩ := (hall defaultEnvVars ["EDITOR".toList]).throws.mpr
    ⟨_, List.mem_singleton_self _, Or.inl (by decide)⟩
  cases h

end Scinit
