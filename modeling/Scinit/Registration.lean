/-
# What registration leaves

`register_processes` runs `propagate_dependencies` on every object in turn, and
each run calls `should_wait_for` on itself or on others. The calls depend on the
objects as they were before (`waits`): names, ids and types never change, and
an object's own lists are not touched before its turn. So the conditions of an
object are the calls on it, the first for each id (`registerAll_get`), and it is
ready if there was none up to the end of its own turn.

Key definitions: `waits`, `waitsOn`, `registerAll`.
Key theorems: `propagateDependencies_eq`, `registerAll_get`.
-/
import Scinit.ChildProcess
import Scinit.Lib.FirstWins

namespace Scinit

/-- What nothing changes in an object, as far as dependencies read it. -/
def ChildProcess.label (p : ChildProcess) : Text × ℕ × ProcessType := (p.name, p.graphId, p.type)

/-- Two heaps with the same objects up to what changes. -/
def SameLabels (objs objs' : Objs) : Prop :=
  ∀ r : Ref, objs[r]?.map ChildProcess.label = objs'[r]?.map ChildProcess.label

theorem SameLabels.refl (objs : Objs) : SameLabels objs objs := fun _ => rfl

theorem SameLabels.trans {a b c : Objs} (h : SameLabels a b) (h' : SameLabels b c) :
    SameLabels a c := fun r => (h r).trans (h' r)

/-- A change of one object that keeps its label. -/
theorem sameLabels_modify (objs : Objs) (r : Ref) {f : ChildProcess → ChildProcess}
    (hf : ∀ p, (f p).label = p.label) : SameLabels (objs.modify r f) objs := by
  intro i
  rw [List.getElem?_modify]
  by_cases h : r = i
  · simp [h, Function.comp_def, hf]
  · simp [h]

theorem shouldWaitFor_eq (p : ChildProcess) (id : ℕ) (state : ProcessState) :
    p.shouldWaitFor id state =
      { p with conditions := FirstWins.add p.conditions (id, state) } := by
  unfold ChildProcess.shouldWaitFor FirstWins.add
  split <;> rfl

/-! ### The calls of `should_wait_for` -/

/-- A call of `should_wait_for`: where the object lives, and the arguments. -/
abbrev Wait := Ref × ℕ × ProcessState

/-- The calls `ws`, in order. -/
def perform (ws : List Wait) (objs : Objs) : Objs :=
  ws.foldl (fun objs w => objs.modify w.1 (·.shouldWaitFor w.2.1 w.2.2)) objs

/-- The arguments of the calls on the object at `r`. -/
def waitsOn (r : Ref) (ws : List Wait) : List (ℕ × ProcessState) :=
  (ws.filter fun w => w.1 = r).map Prod.snd

theorem waitsOn_append (r : Ref) (ws ws' : List Wait) :
    waitsOn r (ws ++ ws') = waitsOn r ws ++ waitsOn r ws' := by
  simp [waitsOn]

theorem waitsOn_flatMap {α : Type*} (r : Ref) (l : List α) (f : α → List Wait) :
    waitsOn r (l.flatMap f) = l.flatMap fun x => waitsOn r (f x) := by
  induction l with
  | nil => rfl
  | cons x l ih => simp only [List.flatMap_cons, waitsOn_append, ih]

theorem mem_waitsOn {r : Ref} {ws : List Wait} {c : ℕ × ProcessState} :
    c ∈ waitsOn r ws ↔ (r, c) ∈ ws := by
  simp only [waitsOn, List.mem_map, List.mem_filter, decide_eq_true_eq]
  constructor
  · rintro ⟨⟨_, _⟩, ⟨h, rfl⟩, rfl⟩
    exact h
  · exact fun h => ⟨_, ⟨h, rfl⟩, rfl⟩

theorem perform_append (ws ws' : List Wait) (objs : Objs) :
    perform (ws ++ ws') objs = perform ws' (perform ws objs) := List.foldl_append

theorem perform_get (ws : List Wait) (objs : Objs) (r : Ref) :
    (perform ws objs)[r]? = objs[r]?.map fun p =>
      { p with conditions := FirstWins.addAll p.conditions (waitsOn r ws) } := by
  induction ws generalizing objs with
  | nil => simp [perform, waitsOn]
  | cons w ws ih =>
    change (perform ws (objs.modify w.1 _))[r]? = _
    rw [ih, List.getElem?_modify]
    by_cases h : w.1 = r
    · simp [waitsOn, h, shouldWaitFor_eq, Function.comp_def]
    · simp [waitsOn, h]

theorem sameLabels_perform (ws : List Wait) (objs : Objs) : SameLabels (perform ws objs) objs := by
  intro r
  rw [perform_get, Option.map_map]
  rfl

/-- The objects of the list that have the name. -/
def named (objs : Objs) (refs : List Ref) (dependency : Text) : List Ref :=
  refs.filter fun r => objs[r]?.any fun p => p.name = dependency

def idAt (objs : Objs) (r : Ref) : ℕ := (objs[r]?.map ChildProcess.graphId).getD 0

/-- The calls of the lambda. -/
def waitsFor (objs : Objs) (refs : List Ref) (this : Ref) (classref : ChildProcess)
    (otherOrThis : Bool) (dependency : Text) : List Wait :=
  (named objs refs dependency).map fun r =>
    if otherOrThis then (r, classref.graphId, classref.requiredState)
    else (this, idAt objs r, classref.requiredState)

/-- The calls of `propagate_dependencies`. -/
def waits (objs : Objs) (refs : List Ref) (this : Ref) : List Wait :=
  match objs[this]? with
  | none => []
  | some p =>
    p.before.flatMap (waitsFor objs refs this p true) ++
      p.after.flatMap (waitsFor objs refs this p false)

theorem mem_named {objs : Objs} {refs : List Ref} {dep : Text} {r : Ref} :
    r ∈ named objs refs dep ↔ r ∈ refs ∧ ∃ q, objs[r]? = some q ∧ q.name = dep := by
  simp [named, Option.any_eq_true]

/-- A call is put on an object by one that names it in `before`, or by itself
for one it names in `after`; the state is the caller's either way. -/
theorem mem_waits {objs : Objs} {refs : List Ref} {this r : Ref} {id : ℕ} {state : ProcessState} :
    (r, id, state) ∈ waits objs refs this ↔ ∃ p, objs[this]? = some p ∧ state = p.requiredState ∧
      ((id = p.graphId ∧ r ∈ refs ∧ ∃ q, objs[r]? = some q ∧ q.name ∈ p.before) ∨
        (r = this ∧ ∃ i ∈ refs, ∃ q, objs[i]? = some q ∧ q.name ∈ p.after ∧ id = q.graphId)) := by
  unfold waits
  cases hp : objs[this]? with
  | none => simp
  | some p =>
    simp only [List.mem_append, List.mem_flatMap, waitsFor, List.mem_map, mem_named, if_true,
      Bool.false_eq_true, if_false, Prod.mk.injEq, Option.some.injEq, exists_eq_left']
    constructor
    · rintro (⟨dep, hdep, i, ⟨hi, q, hq, rfl⟩, rfl, rfl, rfl⟩ | ⟨dep, hdep, i, ⟨hi, q, hq, rfl⟩, rfl, rfl, rfl⟩)
      · exact ⟨rfl, Or.inl ⟨rfl, hi, q, hq, hdep⟩⟩
      · exact ⟨rfl, Or.inr ⟨rfl, i, hi, q, hq, hdep, by simp [idAt, hq]⟩⟩
    · rintro ⟨rfl, ⟨rfl, hr, q, hq, hb⟩ | ⟨rfl, i, hi, q, hq, ha, rfl⟩⟩
      · exact Or.inl ⟨q.name, hb, r, ⟨hr, q, hq, rfl⟩, rfl, rfl, rfl⟩
      · exact Or.inr ⟨q.name, ha, i, ⟨hi, q, hq, rfl⟩, rfl, by simp [idAt, hq], rfl⟩

theorem propagateOne_eq {objs objs₀ : Objs} (h : SameLabels objs objs₀) (refs : List Ref)
    (this : Ref) (p : ChildProcess) (dep : Text) (b : Bool) :
    propagateOne refs this p dep b objs = perform (waitsFor objs₀ refs this p b dep) objs := by
  have hw : ∀ (id : ℕ) (state : ProcessState) (q : ChildProcess),
      (q.shouldWaitFor id state).label = q.label := fun id state q => by
    rw [shouldWaitFor_eq]; rfl
  unfold propagateOne
  induction refs generalizing objs with
  | nil => rfl
  | cons r refs ih =>
    have hr := h r
    rw [List.foldl_cons]
    cases ho : objs[r]? with
    | none =>
      rw [ho] at hr
      have h0 : objs₀[r]? = none := by simpa using hr.symm
      simp only
      rw [ih h]
      simp [waitsFor, named, h0]
    | some q =>
      rw [ho, Option.map_some] at hr
      obtain ⟨q₀, h0, hq⟩ := Option.map_eq_some_iff.mp hr.symm
      simp only [ChildProcess.label, Prod.mk.injEq] at hq
      by_cases hn : q.name = dep
      · have hn0 : q₀.name = dep := hq.1.trans hn
        simp only [hn, if_true]
        cases b
        · refine (ih ((sameLabels_modify objs this (hw q.graphId p.requiredState)).trans h)).trans ?_
          simp [waitsFor, named, h0, hn0, perform, idAt, hq.2.1]
        · refine (ih ((sameLabels_modify objs r (hw p.graphId p.requiredState)).trans h)).trans ?_
          simp [waitsFor, named, h0, hn0, perform]
      · have hn0 : q₀.name ≠ dep := fun h0 => hn (hq.1.symm.trans h0)
        simp only [hn, if_false]
        rw [ih h]
        simp [waitsFor, named, h0, hn0]

theorem propagateOne_foldl_eq {objs objs₀ : Objs} (h : SameLabels objs objs₀) (refs : List Ref)
    (this : Ref) (p : ChildProcess) (deps : List Text) (b : Bool) :
    deps.foldl (fun objs arg => propagateOne refs this p arg b objs) objs =
      perform (deps.flatMap (waitsFor objs₀ refs this p b)) objs := by
  induction deps generalizing objs with
  | nil => rfl
  | cons d deps ih =>
    rw [List.foldl_cons, propagateOne_eq h, ih ((sameLabels_perform _ objs).trans h),
      List.flatMap_cons, perform_append]

/-- `propagate_dependencies` makes the calls `waits`, then settles its object. -/
theorem propagateDependencies_eq {objs objs₀ : Objs} (h : SameLabels objs objs₀) (refs : List Ref)
    {this : Ref} {p p₀ : ChildProcess} (hp : objs[this]? = some p) (hp₀ : objs₀[this]? = some p₀)
    (hb : p.before = p₀.before) (ha : p.after = p₀.after) :
    propagateDependencies refs this objs =
      (perform (waits objs₀ refs this) objs).modify this ChildProcess.settle := by
  have hl : p.label = p₀.label := by simpa [hp, hp₀] using h this
  simp only [ChildProcess.label, Prod.mk.injEq] at hl
  have hw : ∀ b dep, waitsFor objs₀ refs this p b dep = waitsFor objs₀ refs this p₀ b dep := by
    intro b dep
    simp [waitsFor, ChildProcess.requiredState, hl.2.1, hl.2.2]
  simp only [propagateDependencies, hp, waits, hp₀, perform_append]
  rw [propagateOne_foldl_eq h, propagateOne_foldl_eq ((sameLabels_perform _ objs).trans h), hb, ha]
  simp only [funext (hw _)]

/-! ### The whole registration -/

/-- The loop of `register_processes` over `todo`, with `refs` registered. -/
def registerAll (refs todo : List Ref) (objs : Objs) : Objs :=
  todo.foldl (fun objs child =>
    match objs[child]? with
    | some _ => propagateDependencies refs child objs
    | none => objs) objs

/-- The objects up to `r`, `r` included. -/
def upTo (r : Ref) (refs : List Ref) : List Ref := refs.takeWhile (· ≠ r) ++ [r]

/-- An object before registration, after the objects `done` had their turn. -/
def ChildProcess.registered (objs : Objs) (refs done : List Ref) (r : Ref) (p : ChildProcess) :
    ChildProcess :=
  { p with
    before := if r ∈ done then [] else p.before
    after := if r ∈ done then [] else p.after
    conditions := FirstWins.addAll p.conditions (waitsOn r (done.flatMap (waits objs refs)))
    state :=
      if r ∈ done ∧
        FirstWins.addAll p.conditions (waitsOn r ((upTo r done).flatMap (waits objs refs))) = []
      then .ready else p.state }

theorem upTo_append_of_mem {r : Ref} {done : List Ref} (h : r ∈ done) (rest : List Ref) :
    upTo r (done ++ rest) = upTo r done := by
  induction done with
  | nil => cases h
  | cons x xs ih =>
    by_cases hx : x = r
    · simp [upTo, hx]
    · have := ih ((List.mem_cons.mp h).resolve_left (Ne.symm hx))
      simpa [upTo, hx] using this

theorem upTo_append_self {r : Ref} {done : List Ref} (h : r ∉ done) (rest : List Ref) :
    upTo r (done ++ r :: rest) = done ++ [r] := by
  induction done with
  | nil => simp [upTo]
  | cons x xs ih =>
    simp only [List.mem_cons, not_or] at h
    have := ih h.2
    simpa [upTo, Ne.symm h.1] using this

/-- **Registration.** Every object has the conditions that were put on it, the
first for each id, and is ready if none was when its turn ended. -/
theorem registerAll_get (objs : Objs) (refs : List Ref) (hv : ∀ r ∈ refs, r < objs.length)
    {todo : List Ref} (hsub : todo ⊆ refs) (hnd : todo.Nodup) (r : Ref) :
    (registerAll refs todo objs)[r]? = objs[r]?.map (ChildProcess.registered objs refs todo r) := by
  induction todo using List.reverseRecOn generalizing r with
  | nil => cases h : objs[r]? <;> simp [registerAll, h, ChildProcess.registered, waitsOn]
  | append_singleton done x ih =>
    rw [List.nodup_append] at hnd
    have hx : x ∉ done := fun h => hnd.2.2 x h x (by simp) rfl
    have ih := ih (fun y hy => hsub (List.mem_append_left _ hy)) hnd.1
    have hxr : x ∈ refs := hsub (by simp)
    obtain ⟨p₀, hp₀⟩ : ∃ p₀, objs[x]? = some p₀ := ⟨_, List.getElem?_eq_getElem (hv x hxr)⟩
    have hp := ih x
    rw [hp₀, Option.map_some] at hp
    have hl : SameLabels (registerAll refs done objs) objs := by
      intro i
      rw [ih i, Option.map_map]
      rfl
    have hstep : registerAll refs (done ++ [x]) objs =
        (perform (waits objs refs x) (registerAll refs done objs)).modify x ChildProcess.settle := by
      rw [← propagateDependencies_eq hl refs hp hp₀ (by simp [ChildProcess.registered, hx])
        (by simp [ChildProcess.registered, hx])]
      simp only [registerAll, List.foldl_append, List.foldl_cons, List.foldl_nil]
      rw [show (List.foldl _ objs done)[x]? = _ from hp]
    rw [hstep, List.getElem?_modify, perform_get, ih r]
    cases hr : objs[r]? with
    | none => simp
    | some q =>
      simp only [Option.map_some, Option.map_eq_map, Option.some.injEq]
      by_cases hxr' : x = r
      · subst hxr'
        simp only [ChildProcess.registered, ChildProcess.settle, hx, if_true, List.mem_append,
          List.mem_singleton, or_true, true_and, upTo_append_self hx, List.flatMap_append,
          List.flatMap_cons, List.flatMap_nil, List.append_nil, waitsOn_append,
          FirstWins.addAll_append, List.isEmpty_iff, if_false, false_and]
      · have hne : r ≠ x := Ne.symm hxr'
        by_cases hd : r ∈ done
        · simp [ChildProcess.registered, hxr', hd, upTo_append_of_mem hd, waitsOn_append,
            FirstWins.addAll_append]
        · simp [ChildProcess.registered, hxr', hne, hd, waitsOn_append, FirstWins.addAll_append]

end Scinit
