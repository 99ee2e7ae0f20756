/-
# What the entries of a configuration declare

The list of the processes is the list of the entries, so an object that comes
first is one with a smaller id. An entry counts as started once it is done
(oneshot) or runs (simple).

Key definitions: `Program.kind`, `Program.startedAs`, `Program.WaitsFor`.
Key theorems: `boot_condition_iff`, `boot_ready_iff`.
-/
import Scinit.Edges

namespace Scinit

variable {H : Host} {progs : List Program}

/-- The configured `type`. -/
def Program.kind (g : Program) : ProcessType := ProcessType.ofText g.type

/-- The state in which a program counts as started. -/
def Program.startedAs (g : Program) : ProcessState := if g.kind = .oneshot then .done else .running

/-- `g` is to be started after `g'`: one of the two says so. -/
def Program.WaitsFor (g g' : Program) : Prop := g'.name ∈ g.after ∨ g.name ∈ g'.before

/-- What comes before `i` in the order of registration is what is less. -/
theorem mem_of_range_eq {n i : ℕ} {l₁ l₂ : List ℕ} (h : List.range n = l₁ ++ i :: l₂) {y : ℕ} :
    y ∈ l₁ ↔ y < i := by
  have hs : (l₁ ++ i :: l₂).Pairwise (· < ·) := h ▸ List.pairwise_lt_range
  rw [List.pairwise_append, List.pairwise_cons] at hs
  refine ⟨fun hy => hs.2.2 y hy i (by simp), fun hy => ?_⟩
  have hi : i < n := List.mem_range.mp (h ▸ List.mem_append_right _ (by simp))
  have hmem : y ∈ l₁ ++ i :: l₂ := h ▸ List.mem_range.mpr (by omega)
  rcases List.mem_append.mp hmem with hm | hm
  · exact hm
  · rcases List.mem_cons.mp hm with rfl | hm
    · omega
    · have := hs.2.1.1 y hm
      omega

theorem mem_upTo_allRefs {q r : ℕ} (hr : r < progs.length) : q ∈ upTo r (allRefs progs) ↔ q ≤ r := by
  obtain ⟨l₁, l₂, hl⟩ := List.append_of_mem (List.mem_range.mpr hr)
  have hnr : r ∉ l₁ := fun h => absurd ((mem_of_range_eq hl).mp h) (lt_irrefl r)
  rw [allRefs, hl, upTo_append_self hnr, List.mem_append, List.mem_singleton, mem_of_range_eq hl]
  exact Nat.le_iff_lt_or_eq.symm

theorem boot_objs (H : Host) (progs : List Program) :
    (boot H progs).objs = registerAll (allRefs progs) (allRefs progs) (fresh H progs) := by
  refine List.ext_getElem? fun r => ?_
  rw [boot_get, registerAll_get _ _ (constructed_fresh H progs).valid (List.Subset.refl _)
    (constructed_fresh H progs).nodup]

theorem fresh_eq_some {r : Ref} {g : Program} (hg : progs[r]? = some g) :
    (fresh H progs)[r]? = some (ChildProcess.new H g r) := by
  rw [fresh_get, hg, Option.map_some]

/-- **Who waits for whom.** A process waits for exactly those that its entry or
theirs declares, and for the state that the declaring entry writes: the other
program's own if that comes first, else the waiting program's. -/
theorem boot_condition_iff {r q : Ref} {p : ChildProcess} {g g' : Program} {st : ProcessState}
    (hp : (boot H progs).objs[r]? = some p) (hg : progs[r]? = some g) (hg' : progs[q]? = some g') :
    (q, st) ∈ p.conditions ↔ g.WaitsFor g' ∧
      st = if g.name ∈ g'.before ∧ (q ≤ r ∨ g'.name ∉ g.after) then g'.startedAs else g.startedAs := by
  have hlt : ∀ {i : Ref} {g : Program}, progs[i]? = some g → i < progs.length :=
    fun h => (List.getElem?_eq_some_iff.mp h).1
  rw [boot_objs] at hp
  refine (condition_iff (constructed_fresh H progs) (List.mem_range.mpr (hlt hg))
    (fresh_eq_some hg) hp (List.mem_range.mpr (hlt hg')) (fresh_eq_some hg')).trans ?_
  simp only [mem_upTo_allRefs (hlt hg)]
  exact Iff.rfl

/-- **Who waits at all.** A process is ready after registration unless an entry
up to its own declares that it waits. -/
theorem boot_ready_iff {r : Ref} {p : ChildProcess} {g : Program} (hp : (boot H progs).objs[r]? = some p)
    (hg : progs[r]? = some g) : p.state = .ready ↔
      ¬ ∃ (q : Ref) (g' : Program), progs[q]? = some g' ∧
        (g'.name ∈ g.after ∨ (q ≤ r ∧ g.name ∈ g'.before)) := by
  have hlt : ∀ {i : Ref} {g : Program}, progs[i]? = some g → i < progs.length :=
    fun h => (List.getElem?_eq_some_iff.mp h).1
  rw [boot_objs] at hp
  rw [ready_iff (constructed_fresh H progs) (List.mem_range.mpr (hlt hg)) (fresh_eq_some hg) hp]
  refine not_congr ⟨?_, ?_⟩
  · rintro ⟨q, -, pq, hpq, h⟩
    rw [mem_upTo_allRefs (hlt hg)] at h
    rw [fresh_get, Option.map_eq_some_iff] at hpq
    obtain ⟨g', hg', rfl⟩ := hpq
    exact ⟨q, g', hg', h⟩
  · rintro ⟨q, g', hg', h⟩
    refine ⟨q, List.mem_range.mpr (hlt hg'), _, fresh_eq_some hg', ?_⟩
    rw [mem_upTo_allRefs (hlt hg)]
    exact h

end Scinit
