/-
# The dependencies that registration leaves

`register_processes` on any list of objects as their constructor leaves them,
with distinct ids. Who waits for whom is what the objects declare, on either
side and each once (`edges_exact`). But the state a process waits for, and
whether it waits at all, depend on the order of the list: a dependency is put
down by whichever of its two ends comes first, with the state that this end's
type asks for (`condition_iff`), and a process is ready if no object up to its
own place declares that it waits (`ready_iff`).

Key definitions: `Constructed`, `ChildProcess.WaitsFor`.
Key theorems: `condition_iff`, `ready_iff`, `edges_exact`, `required_state_iff`,
`readiness_iff`.
-/
import Scinit.Boot

namespace Scinit

variable {refs : List Ref} {objs : Objs} {r : Ref} {p p' : ChildProcess}

/-- `p` is to be started after `q`: one of the two says so. -/
def ChildProcess.WaitsFor (p q : ChildProcess) : Prop := q.name ∈ p.after ∨ p.name ∈ q.before

/-- The objects of the list are there once, as their constructor leaves them,
with distinct ids. -/
structure Constructed (refs : List Ref) (objs : Objs) : Prop where
  nodup : refs.Nodup
  valid : ∀ r ∈ refs, r < objs.length
  blank : ∀ r ∈ refs, ∀ p, objs[r]? = some p → p.conditions = [] ∧ p.state = .blocked
  ids : ∀ r ∈ refs, ∀ q ∈ refs, ∀ p p', objs[r]? = some p → objs[q]? = some p' →
    p.graphId = p'.graphId → r = q

/-- What the constructor makes of the entries, with their places as ids. -/
theorem constructed_fresh (H : Host) (progs : List Program) :
    Constructed (allRefs progs) (fresh H progs) where
  nodup := List.nodup_range
  valid := by simp [allRefs, fresh_length]
  blank := fun r _ p hp => by
    rw [fresh_get, Option.map_eq_some_iff] at hp
    obtain ⟨g, -, rfl⟩ := hp
    exact ⟨rfl, rfl⟩
  ids := fun r _ q _ p p' hp hp' h => by
    rw [fresh_get, Option.map_eq_some_iff] at hp hp'
    obtain ⟨g, -, rfl⟩ := hp
    obtain ⟨g', -, rfl⟩ := hp'
    exact h

/-! ### The order of the list -/

/-- Whoever is not up to `r` comes after it. -/
theorem mem_upTo_iff {l₁ l₂ : List Ref} {i : Ref} (h : refs = l₁ ++ i :: l₂) (hnd : refs.Nodup)
    (hr : r ∈ refs) : i ∈ upTo r refs ↔ r ∉ l₁ := by
  subst h
  rw [List.nodup_append, List.nodup_cons] at hnd
  constructor
  · intro hi hrl
    rw [upTo_append_of_mem hrl] at hi
    have hil : i ∈ l₁ := by
      rcases List.mem_append.mp hi with h | h
      · exact (List.takeWhile_sublist _).subset h
      · exact List.mem_singleton.mp h ▸ hrl
    exact hnd.2.2 i hil i (by simp) rfl
  · intro hrl
    rcases List.mem_cons.mp ((List.mem_append.mp hr).resolve_left hrl) with rfl | hr2
    · rw [upTo_append_self hrl]
      simp
    · have hne : i ≠ r := fun he => hnd.2.1.1 (he ▸ hr2)
      have hl : ∀ x ∈ l₁, decide (x ≠ r) = true := fun x hx => decide_eq_true fun he => hrl (he ▸ hx)
      simp only [upTo, List.takeWhile_append_of_pos hl, List.takeWhile_cons, ne_eq, hne, not_false_eq_true,
        decide_true, if_true, List.mem_append, List.mem_cons, true_or, or_true]

/-! ### What is put down -/

/-- The object after registration. -/
theorem registered_get (hc : Constructed refs objs) (hr : r ∈ refs) (hp : objs[r]? = some p)
    (hp' : (registerAll refs refs objs)[r]? = some p') :
    p'.conditions = FirstWins.addAll [] (refs.flatMap fun i => waitsOn r (waits objs refs i)) ∧
    p'.state = if waitsOn r ((upTo r refs).flatMap (waits objs refs)) = [] then .ready else .blocked := by
  rw [registerAll_get objs refs hc.valid (List.Subset.refl _) hc.nodup, hp, Option.map_some,
    Option.some.injEq] at hp'
  subst hp'
  obtain ⟨h1, h2⟩ := hc.blank r hr p hp
  simp only [ChildProcess.registered, h1, h2, hr, true_and, waitsOn_flatMap, FirstWins.addAll_eq_nil_iff, and_self]

/-- A call on the object at `r` for the id of `q` comes from `q`'s `before` or from `r`'s `after`. -/
theorem mem_waits_iff (hc : Constructed refs objs) (hr : r ∈ refs) (hp : objs[r]? = some p) {q i : Ref}
    {pq : ChildProcess} (hq : q ∈ refs) (hpq : objs[q]? = some pq) (hi : i ∈ refs) {st : ProcessState} :
    (pq.graphId, st) ∈ waitsOn r (waits objs refs i) ↔
      (i = q ∧ p.name ∈ pq.before ∧ st = pq.requiredState) ∨
        (i = r ∧ pq.name ∈ p.after ∧ st = p.requiredState) := by
  rw [mem_waitsOn, mem_waits]
  constructor
  · rintro ⟨pi, hpi, rfl, ⟨hid, -, pr, hpr, hb⟩ | ⟨rfl, j, hj, pj, hpj, ha, hid⟩⟩
    · obtain rfl := hc.ids q hq i hi pq pi hpq hpi hid
      rw [hpq, Option.some.injEq] at hpi
      rw [hp, Option.some.injEq] at hpr
      subst hpi hpr
      exact Or.inl ⟨rfl, hb, rfl⟩
    · obtain rfl := hc.ids q hq j hj pq pj hpq hpj hid
      rw [hpq, Option.some.injEq] at hpj
      rw [hp, Option.some.injEq] at hpi
      subst hpi hpj
      exact Or.inr ⟨rfl, ha, rfl⟩
  · rintro (⟨rfl, hb, rfl⟩ | ⟨rfl, ha, rfl⟩)
    · exact ⟨pq, hpq, rfl, Or.inl ⟨rfl, hr, p, hp, hb⟩⟩
    · exact ⟨p, hp, rfl, Or.inr ⟨rfl, q, hq, pq, hpq, ha, rfl⟩⟩

/-- A call names the id of an object of the list. -/
theorem id_of_mem_waits {i : Ref} (hi : i ∈ refs) {id : ℕ} {st : ProcessState}
    (h : (id, st) ∈ waitsOn r (waits objs refs i)) :
    ∃ q ∈ refs, ∃ pq, objs[q]? = some pq ∧ pq.graphId = id := by
  rw [mem_waitsOn, mem_waits] at h
  obtain ⟨pi, hpi, -, ⟨rfl, -⟩ | ⟨-, j, hj, pj, hpj, -, rfl⟩⟩ := h
  · exact ⟨i, hi, pi, hpi, rfl⟩
  · exact ⟨j, hj, pj, hpj, rfl⟩

/-- A condition is that of the first declaration. -/
theorem condition_state (hc : Constructed refs objs) (hr : r ∈ refs) (hp : objs[r]? = some p)
    (hp' : (registerAll refs refs objs)[r]? = some p') {q : Ref} {pq : ChildProcess} (hq : q ∈ refs)
    (hpq : objs[q]? = some pq) {st : ProcessState} (h : (pq.graphId, st) ∈ p'.conditions) :
    p.WaitsFor pq ∧ st = if p.name ∈ pq.before ∧ (q ∈ upTo r refs ∨ pq.name ∉ p.after)
      then pq.requiredState else p.requiredState := by
  rw [(registered_get hc hr hp hp').1] at h
  obtain ⟨l₁, i, l₂, hl, he, hno⟩ := FirstWins.first_of_mem_addAll h
  have hfirst : ∀ j ∈ l₁, ∀ st, (pq.graphId, st) ∉ waitsOn r (waits objs refs j) := fun j hj st hm =>
    hno j hj _ hm rfl
  have hi : i ∈ refs := hl ▸ List.mem_append_right _ (by simp)
  have hup := fun {r : Ref} (hr : r ∈ refs) => mem_upTo_iff (r := r) hl hc.nodup hr
  rcases (mem_waits_iff hc hr hp hq hpq hi).mp he with ⟨rfl, hb, rfl⟩ | ⟨rfl, ha, rfl⟩
  · refine ⟨Or.inr hb, (if_pos ⟨hb, ?_⟩).symm⟩
    by_contra hlate
    push Not at hlate
    have hrl : r ∈ l₁ := not_not.mp fun h => hlate.1 ((hup hr).mpr h)
    exact hfirst r hrl _ ((mem_waits_iff hc hr hp hq hpq hr).mpr (Or.inr ⟨rfl, hlate.2, rfl⟩))
  · refine ⟨Or.inl ha, ?_⟩
    by_cases hb : p.name ∈ pq.before ∧ (q ∈ upTo i refs ∨ pq.name ∉ p.after)
    · have hq' : q ∈ upTo i refs := hb.2.resolve_right (not_not.mpr ha)
      have hil : i ∉ l₁ := (hup hi).mp (by simp [upTo])
      rw [hl, upTo_append_self hil, List.mem_append, List.mem_singleton] at hq'
      rcases hq' with hq' | rfl
      · exact absurd ((mem_waits_iff hc hr hp hq hpq hq).mpr (Or.inl ⟨rfl, hb.1, rfl⟩)) (hfirst q hq' _)
      · rw [hp, Option.some.injEq] at hpq
        subst hpq
        exact (ite_self _).symm
    · exact (if_neg hb).symm

/-- **The state waited for** is that of the first declaration: `q`'s own, if
`q` names `r` and comes first or is the only one, else that of `r`'s type. -/
theorem condition_iff (hc : Constructed refs objs) (hr : r ∈ refs) (hp : objs[r]? = some p)
    (hp' : (registerAll refs refs objs)[r]? = some p') {q : Ref} {pq : ChildProcess} (hq : q ∈ refs)
    (hpq : objs[q]? = some pq) {st : ProcessState} : (pq.graphId, st) ∈ p'.conditions ↔
      p.WaitsFor pq ∧ st = if p.name ∈ pq.before ∧ (q ∈ upTo r refs ∨ pq.name ∉ p.after)
        then pq.requiredState else p.requiredState := by
  refine ⟨condition_state hc hr hp hp' hq hpq, ?_⟩
  rintro ⟨hw, rfl⟩
  have hkey : pq.graphId ∈ p'.conditions.map Prod.fst := by
    rw [(registered_get hc hr hp hp').1]
    refine FirstWins.mem_keys_addAll.mpr (Or.inr (List.mem_map.mpr ?_))
    rcases hw with ha | hb
    · exact ⟨(pq.graphId, p.requiredState), List.mem_flatMap.mpr ⟨r, hr,
        (mem_waits_iff hc hr hp hq hpq hr).mpr (Or.inr ⟨rfl, ha, rfl⟩)⟩, rfl⟩
    · exact ⟨(pq.graphId, pq.requiredState), List.mem_flatMap.mpr ⟨q, hq,
        (mem_waits_iff hc hr hp hq hpq hq).mpr (Or.inl ⟨rfl, hb, rfl⟩)⟩, rfl⟩
  obtain ⟨⟨_, st⟩, hm, hid⟩ := List.mem_map.mp hkey
  obtain rfl : _ = pq.graphId := hid
  exact (condition_state hc hr hp hp' hq hpq hm).2 ▸ hm

/-- **Who waits at all.** A process is ready unless an object up to its own
place in the list declares that it waits. -/
theorem ready_iff (hc : Constructed refs objs) (hr : r ∈ refs) (hp : objs[r]? = some p)
    (hp' : (registerAll refs refs objs)[r]? = some p') : p'.state = .ready ↔
      ¬ ∃ q ∈ refs, ∃ pq, objs[q]? = some pq ∧
        (pq.name ∈ p.after ∨ (q ∈ upTo r refs ∧ p.name ∈ pq.before)) := by
  have hsub : ∀ i ∈ upTo r refs, i ∈ refs := by
    intro i hi
    rcases List.mem_append.mp hi with h | h
    · exact (List.takeWhile_sublist _).subset h
    · exact List.mem_singleton.mp h ▸ hr
  have hself : r ∈ upTo r refs := by simp [upTo]
  have hnil : p'.state = .ready ↔ waitsOn r ((upTo r refs).flatMap (waits objs refs)) = [] := by
    rw [(registered_get hc hr hp hp').2]
    split
    · simpa
    · simpa
  rw [hnil, List.eq_nil_iff_forall_not_mem, waitsOn_flatMap]
  constructor
  · rintro h ⟨q, hq, pq, hpq, ha | ⟨hup, hb⟩⟩
    · exact h _ (List.mem_flatMap.mpr ⟨r, hself, (mem_waits_iff hc hr hp hq hpq hr).mpr
        (Or.inr ⟨rfl, ha, rfl⟩)⟩)
    · exact h _ (List.mem_flatMap.mpr ⟨q, hup, (mem_waits_iff hc hr hp hq hpq hq).mpr
        (Or.inl ⟨rfl, hb, rfl⟩)⟩)
  · rintro h ⟨id, st⟩ hm
    obtain ⟨i, hi, hm⟩ := List.mem_flatMap.mp hm
    obtain ⟨q, hq, pq, hpq, rfl⟩ := id_of_mem_waits (hsub i hi) hm
    rcases (mem_waits_iff hc hr hp hq hpq (hsub i hi)).mp hm with ⟨rfl, hb, -⟩ | ⟨-, ha, -⟩
    · exact h ⟨i, hq, pq, hpq, Or.inr ⟨hi, hb⟩⟩
    · exact h ⟨q, hq, pq, hpq, Or.inl ha⟩

theorem id_of_condition (hc : Constructed refs objs) (hr : r ∈ refs) (hp : objs[r]? = some p)
    (hp' : (registerAll refs refs objs)[r]? = some p') {c : ℕ × ProcessState} (h : c ∈ p'.conditions) :
    ∃ q ∈ refs, ∃ pq, objs[q]? = some pq ∧ pq.graphId = c.1 := by
  rw [(registered_get hc hr hp hp').1] at h
  obtain ⟨i, hi, hm⟩ := List.mem_flatMap.mp (FirstWins.mem_of_mem_addAll h)
  exact id_of_mem_waits hi hm

/-! ### What `register_processes` leaves -/

variable {s : Sys}

/-- `p` is to be started after `q`, which says so and comes later in the list. -/
def namedLater : List Program := [plain 'p' "simple" [] [], plain 'q' "simple" ['p'] []]

/-- **The edges are exact.** The ids in the conditions of a process are those of
the processes that one of the two sides declares, each once. -/
theorem edges_exact (hc : Constructed refs s.objs) (r : Ref) (hr : r ∈ refs) (p p' : ChildProcess)
    (hp : s.objs[r]? = some p) (hp' : (registerProcesses refs s).objs[r]? = some p') :
    (∀ id, id ∈ p'.conditions.map Prod.fst ↔
      ∃ q ∈ refs, ∃ pq, s.objs[q]? = some pq ∧ pq.graphId = id ∧
        (pq.name ∈ p.after ∨ p.name ∈ pq.before)) ∧
    (p'.conditions.map Prod.fst).Nodup := by
  have hp' : (registerAll refs refs s.objs)[r]? = some p' := hp'
  refine ⟨fun id => ⟨fun h => ?_, ?_⟩, ?_⟩
  · obtain ⟨⟨_, st⟩, hm, rfl⟩ := List.mem_map.mp h
    obtain ⟨q, hq, pq, hpq, hid⟩ := id_of_condition hc hr hp hp' hm
    obtain rfl : pq.graphId = _ := hid
    exact ⟨q, hq, pq, hpq, rfl, ((condition_iff hc hr hp hp' hq hpq).mp hm).1⟩
  · rintro ⟨q, hq, pq, hpq, rfl, hw⟩
    exact List.mem_map.mpr ⟨_, (condition_iff hc hr hp hp' hq hpq).mpr ⟨hw, rfl⟩, rfl⟩
  · rw [(registered_get hc hr hp hp').1]
    exact FirstWins.nodup_keys_addAll (by simp) _

theorem edges_exact_simpleAfterOneshot : ∃ p',
    (registerProcesses (allRefs simpleAfterOneshot)
      { boot bareHost simpleAfterOneshot with objs := fresh bareHost simpleAfterOneshot }).objs[1]? = some p' ∧
    (p'.conditions.map Prod.fst).Nodup :=
  ⟨_, rfl, (edges_exact (s := { boot bareHost simpleAfterOneshot with
    objs := fresh bareHost simpleAfterOneshot }) (constructed_fresh bareHost simpleAfterOneshot) 1 (by decide)
    _ _ rfl rfl).2⟩

/-- **The required states** of a process are the right ones if and only if each
process it waits for has its own type, or declares the dependency itself and is
the first to do so. -/
theorem required_state_iff (hc : Constructed refs s.objs) (r : Ref) (hr : r ∈ refs) (p p' : ChildProcess)
    (hp : s.objs[r]? = some p) (hp' : (registerProcesses refs s).objs[r]? = some p') :
    (∀ c ∈ p'.conditions, ∀ q ∈ refs, ∀ pq, s.objs[q]? = some pq → pq.graphId = c.1 →
      c.2 = if pq.type = .oneshot then .done else .running) ↔
    ∀ q ∈ refs, ∀ pq, s.objs[q]? = some pq → (pq.name ∈ p.after ∨ p.name ∈ pq.before) →
      pq.type = p.type ∨ (p.name ∈ pq.before ∧ (q ∈ upTo r refs ∨ pq.name ∉ p.after)) := by
  have hp' : (registerAll refs refs s.objs)[r]? = some p' := hp'
  constructor
  · intro h q hq pq hpq hw
    by_contra hn
    push Not at hn
    have hcond := (condition_iff hc hr hp hp' hq hpq).mpr ⟨hw, rfl⟩
    have hst := h _ hcond q hq pq hpq rfl
    rw [if_neg fun hb => (hn.2 hb.1).1 (hb.2.resolve_right (not_not.mpr (hn.2 hb.1).2))] at hst
    refine hn.1 ?_
    simp only [ChildProcess.requiredState] at hst
    cases h1 : p.type <;> cases h2 : pq.type <;> simp [h1, h2] at hst ⊢
  · intro h c hcond q hq pq hpq hid
    obtain ⟨id, st⟩ := c
    obtain rfl : pq.graphId = id := hid
    obtain ⟨hw, rfl⟩ := (condition_iff hc hr hp hp' hq hpq).mp hcond
    show _ = pq.requiredState
    rcases h q hq pq hpq hw with ht | hb
    · split
      · rfl
      · simp only [ChildProcess.requiredState, ht]
    · exact if_pos hb

theorem required_state_iff_chainAB : ∃ p',
    (registerProcesses (allRefs chainAB) { boot bareHost chainAB with objs := fresh bareHost chainAB }).objs[1]? =
      some p' ∧ ∀ c ∈ p'.conditions, ∀ q ∈ allRefs chainAB, ∀ pq, (fresh bareHost chainAB)[q]? = some pq →
        pq.graphId = c.1 → c.2 = if pq.type = .oneshot then .done else .running := by
  refine ⟨_, rfl, (required_state_iff (s := { boot bareHost chainAB with objs := fresh bareHost chainAB })
    (constructed_fresh bareHost chainAB) 1 (by decide) _ _ rfl rfl).mpr fun q hq pq hpq _ => Or.inl ?_⟩
  have hq : q < 2 := List.mem_range.mp hq
  interval_cases q <;> cases hpq <;> rfl

/-- A simple program waits for the oneshot that it names in `after` to run, not to be done. -/
theorem required_state_wrong : ¬ ∀ (refs : List Ref) (s : Sys), Constructed refs s.objs → ∀ r ∈ refs,
    ∀ p p', s.objs[r]? = some p → (registerProcesses refs s).objs[r]? = some p' →
      ∀ c ∈ p'.conditions, ∀ q ∈ refs, ∀ pq, s.objs[q]? = some pq → pq.graphId = c.1 →
        c.2 = if pq.type = .oneshot then .done else .running := by
  intro hall
  have h := hall _ { boot bareHost simpleAfterOneshot with objs := fresh bareHost simpleAfterOneshot }
    (constructed_fresh bareHost simpleAfterOneshot) 1 (by decide) _ _ rfl rfl (0, .running) (by decide) 0
    (by decide) _ rfl rfl
  revert h
  decide

/-- **Readiness.** A process is READY exactly if it has no conditions, and
BLOCKED otherwise, if and only if one of its dependencies is declared by itself
or by an object up to its own place in the list, when it has any. -/
theorem readiness_iff (hc : Constructed refs s.objs) (r : Ref) (hr : r ∈ refs) (p p' : ChildProcess)
    (hp : s.objs[r]? = some p) (hp' : (registerProcesses refs s).objs[r]? = some p') :
    ((p'.state = .ready ↔ p'.conditions = []) ∧ (p'.state = .blocked ↔ p'.conditions ≠ [])) ↔
    ((∃ q ∈ refs, ∃ pq, s.objs[q]? = some pq ∧ (pq.name ∈ p.after ∨ p.name ∈ pq.before)) →
      ∃ q ∈ refs, ∃ pq, s.objs[q]? = some pq ∧
        (pq.name ∈ p.after ∨ (q ∈ upTo r refs ∧ p.name ∈ pq.before))) := by
  have hnil : p'.conditions = [] ↔
      ¬ ∃ q ∈ refs, ∃ pq, s.objs[q]? = some pq ∧ (pq.name ∈ p.after ∨ p.name ∈ pq.before) := by
    obtain ⟨hids, -⟩ := edges_exact hc r hr p p' hp hp'
    constructor
    · rintro h ⟨q, hq, pq, hpq, hw⟩
      have := (hids pq.graphId).mpr ⟨q, hq, pq, hpq, rfl, hw⟩
      simp [h] at this
    · intro h
      refine List.eq_nil_iff_forall_not_mem.mpr fun c hm => h ?_
      obtain ⟨q, hq, pq, hpq, -, hw⟩ := (hids c.1).mp (List.mem_map.mpr ⟨c, hm, rfl⟩)
      exact ⟨q, hq, pq, hpq, hw⟩
  have hp' : (registerAll refs refs s.objs)[r]? = some p' := hp'
  have hready := ready_iff hc hr hp hp'
  have hstate : p'.state = .blocked ↔ p'.state ≠ .ready := by
    rw [(registered_get hc hr hp hp').2]
    split
    · simp
    · simp
  have hmono : (∃ q ∈ refs, ∃ pq, s.objs[q]? = some pq ∧
      (pq.name ∈ p.after ∨ (q ∈ upTo r refs ∧ p.name ∈ pq.before))) →
      ∃ q ∈ refs, ∃ pq, s.objs[q]? = some pq ∧ (pq.name ∈ p.after ∨ p.name ∈ pq.before) := by
    rintro ⟨q, hq, pq, hpq, h⟩
    exact ⟨q, hq, pq, hpq, h.imp_right And.right⟩
  simp only [hstate, ne_eq, hready, hnil]
  constructor
  · rintro ⟨h, -⟩ hany
    by_contra hnone
    exact h.mp hnone hany
  · intro h
    rw [Iff.intro h hmono]
    exact ⟨Iff.rfl, Iff.rfl⟩

theorem readiness_iff_namedLater : ∃ p',
    (registerProcesses (allRefs namedLater)
      { boot bareHost namedLater with objs := fresh bareHost namedLater }).objs[1]? = some p' ∧
    (p'.state = .ready ↔ p'.conditions = []) :=
  ⟨_, rfl, ((readiness_iff (s := { boot bareHost namedLater with objs := fresh bareHost namedLater })
    (constructed_fresh bareHost namedLater) 1 (by decide) _ _ rfl rfl).mpr (by
      rintro ⟨q, hq, pq, hpq, hw⟩
      have hlt : q < 2 := List.mem_range.mp hq
      refine ⟨q, hq, pq, hpq, hw.imp_right fun hb => ⟨?_, hb⟩⟩
      interval_cases q <;> decide)).1⟩

/-- A process is ready though it has a condition, when only a later one declares it. -/
theorem ready_with_conditions : ¬ ∀ (refs : List Ref) (s : Sys), Constructed refs s.objs → ∀ r ∈ refs,
    ∀ p p', s.objs[r]? = some p → (registerProcesses refs s).objs[r]? = some p' →
      (p'.state = .ready ↔ p'.conditions = []) ∧ (p'.state = .blocked ↔ p'.conditions ≠ []) := by
  intro hall
  have h := (hall _ { boot bareHost namedLater with objs := fresh bareHost namedLater }
    (constructed_fresh bareHost namedLater) 0 (by decide) _ _ rfl rfl).1.mp (by decide)
  revert h
  decide

end Scinit
