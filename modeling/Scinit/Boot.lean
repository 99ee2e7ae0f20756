/-
# The state the event loop starts from

The objects `parse_file` makes of the entries, the tables they register
themselves in, and what `register_processes` makes of them.

Key definitions: `WellFormed`.
Key theorems: `boot_get`, `boot_wellFormed`, `boot_objForId`, `boot_sigForId`.
-/
import Scinit.Registration
import Scinit.Starting

namespace Scinit

variable (H : Host)

namespace Config

theorem ofPrograms_snoc (progs : List Program) (g : Program) :
    ofPrograms H (progs ++ [g]) = (ofPrograms H progs).addProcess H g := by
  simp [ofPrograms]

theorem ofPrograms_childCounter (progs : List Program) :
    (ofPrograms H progs).childCounter = progs.length := by
  induction progs using List.reverseRecOn with
  | nil => rfl
  | append_singleton ps g ih => simp [ofPrograms_snoc, addProcess, ih]

/-- The objects are the entries in order, each with its place as its id. -/
theorem ofPrograms_processes (progs : List Program) :
    (ofPrograms H progs).processes = progs.mapIdx fun i g => ChildProcess.new H g i := by
  induction progs using List.reverseRecOn with
  | nil => rfl
  | append_singleton ps g ih =>
    rw [ofPrograms_snoc, List.mapIdx_concat, ← ih]
    simp [addProcess, ofPrograms_childCounter]

theorem ofPrograms_length (progs : List Program) :
    (ofPrograms H progs).processes.length = progs.length := by
  rw [ofPrograms_processes, List.length_mapIdx]

theorem ofPrograms_objForId (progs : List Program) (id : ℕ) :
    (ofPrograms H progs).handler.objForId[id]? =
      if id < progs.length then some (some id) else none := by
  induction progs using List.reverseRecOn with
  | nil => simp [ofPrograms]
  | append_singleton ps g ih =>
    simp only [ofPrograms_snoc, addProcess, ProcessHandler.registerObjId,
      ProcessHandler.registerForProcessState, ofPrograms_childCounter, ofPrograms_length,
      ChildProcess.new, Std.ExtTreeMap.getElem?_insert, Std.LawfulEqCmp.compare_eq_iff_eq, ih,
      List.length_append, List.length_singleton]
    by_cases h : ps.length = id
    · simp [h]
    · rw [if_neg h]
      by_cases h' : id < ps.length
      · simp [h', Nat.lt_succ_of_lt h']
      · rw [if_neg h', if_neg (by omega)]

theorem ofPrograms_sigForId (progs : List Program) (id : ℤ) :
    (ofPrograms H progs).handler.sigForId[id]? =
      if 0 ≤ id ∧ id < progs.length then some [id.toNat] else none := by
  induction progs using List.reverseRecOn with
  | nil =>
    have : ¬ (0 ≤ id ∧ id < 0) := by omega
    simp [ofPrograms, this]
  | append_singleton ps g ih =>
    simp only [ofPrograms_snoc, addProcess, ProcessHandler.registerObjId,
      ProcessHandler.registerForProcessState, ofPrograms_childCounter, ofPrograms_length,
      ChildProcess.new, Std.ExtTreeMap.getElem?_insert, Std.LawfulEqCmp.compare_eq_iff_eq,
      List.length_append, List.length_singleton, Nat.cast_add, Nat.cast_one]
    by_cases h : (ps.length : ℤ) = id
    · subst h
      simp [ih]
    · rw [if_neg h, ih]
      by_cases h' : 0 ≤ id ∧ id < ps.length
      · rw [if_pos h', if_pos ⟨h'.1, by omega⟩]
      · rw [if_neg h', if_neg (by omega)]

/-- Nothing was started yet, and no descriptor is known. -/
theorem ofPrograms_tables (progs : List Program) :
    let h := (ofPrograms H progs).handler
    h.idForPid = ∅ ∧ h.idForFd = ∅ ∧ h.numFdForId = ∅ ∧ h.fdType = ∅ ∧ h.signalFd = -1 ∧
      h.numberOfRunningProcs = 0 ∧ h.shouldQuit = false := by
  induction progs using List.reverseRecOn with
  | nil => exact ⟨rfl, rfl, rfl, rfl, rfl, rfl, rfl⟩
  | append_singleton ps g ih =>
    rw [ofPrograms_snoc]
    exact ih

end Config

/-! ### After `register_processes` -/

variable (progs : List Program)

/-- The objects before registration. -/
def fresh : Objs := (Config.ofPrograms H progs).processes

theorem fresh_get (r : Ref) : (fresh H progs)[r]? = progs[r]?.map fun g => ChildProcess.new H g r := by
  rw [fresh, Config.ofPrograms_processes, List.getElem?_mapIdx]

theorem fresh_length : (fresh H progs).length = progs.length := Config.ofPrograms_length H progs

/-- All objects, in the order they are registered. -/
def allRefs : List Ref := List.range progs.length

theorem boot_get (r : Ref) : (boot H progs).objs[r]? =
    (fresh H progs)[r]?.map
      (ChildProcess.registered (fresh H progs) (allRefs progs) (allRefs progs) r) := by
  have := registerAll_get (fresh H progs) (allRefs progs)
    (by simp [allRefs, fresh_length]) (fun _ h => h) List.nodup_range r
  rw [← this]
  simp only [boot, Config.start, registerProcesses, allRefs, ← fresh_length H progs]
  rfl

theorem boot_objForId (id : ℕ) : (boot H progs).handler.objForId[id]? =
    if id < progs.length then some (some id) else none :=
  Config.ofPrograms_objForId H progs id

theorem boot_sigForId (id : ℕ) : (boot H progs).handler.sigForId[(id : ℤ)]? =
    if id < progs.length then some [id] else none := by
  show (Config.ofPrograms H progs).handler.sigForId[(id : ℤ)]? = _
  simp [Config.ofPrograms_sigForId]

theorem boot_length : (boot H progs).objs.length = progs.length := by
  have h : ∀ r, (boot H progs).objs.length ≤ r ↔ progs.length ≤ r := fun r => by
    rw [← List.getElem?_eq_none_iff, ← List.getElem?_eq_none_iff, boot_get, fresh_get]
    simp only [Option.map_eq_none_iff]
  have h1 := h (boot H progs).objs.length
  have h2 := h progs.length
  omega

theorem boot_allObjs : (boot H progs).handler.allObjs = List.range progs.length := by
  simp only [boot, Config.start, registerProcesses, Config.ofPrograms_length]

/-- What registration leaves of the objects: ids are places, a condition names
an object and asks for RUNNING or DONE, and nothing runs. -/
structure WellFormed (base : Objs) : Prop where
  graphId : ∀ (r : Ref) (p : ChildProcess), base[r]? = some p → p.graphId = r
  sensible : Sensible base
  known : ∀ (r : Ref) (p : ChildProcess), base[r]? = some p → ∀ c ∈ p.conditions, c.1 < base.length
  state : ∀ (r : Ref) (p : ChildProcess), base[r]? = some p → p.state = .blocked ∨ p.state = .ready

theorem requiredState_cases (p : ChildProcess) :
    p.requiredState = .running ∨ p.requiredState = .done := by
  unfold ChildProcess.requiredState
  split
  · exact Or.inr rfl
  · exact Or.inl rfl

/-- A condition goes back to a call of some object. -/
theorem mem_boot_conditions {r : Ref} {p : ChildProcess} (hp : (boot H progs).objs[r]? = some p)
    {c : ℕ × ProcessState} (hc : c ∈ p.conditions) :
    ∃ i ∈ allRefs progs, (r, c) ∈ waits (fresh H progs) (allRefs progs) i := by
  rw [boot_get, fresh_get, Option.map_map, Option.map_eq_some_iff] at hp
  obtain ⟨g, _, rfl⟩ := hp
  have := FirstWins.mem_of_mem_addAll hc
  simp only [ChildProcess.new, List.nil_append] at this
  rw [mem_waitsOn, List.mem_flatMap] at this
  exact this

theorem boot_wellFormed : WellFormed (boot H progs).objs where
  graphId := fun r p hp => by
    rw [boot_get, fresh_get, Option.map_map, Option.map_eq_some_iff] at hp
    obtain ⟨g, _, rfl⟩ := hp
    rfl
  sensible := fun r p hp c hc => by
    obtain ⟨i, -, hw⟩ := mem_boot_conditions H progs hp hc
    obtain ⟨q, -, hq, -⟩ := mem_waits.mp hw
    rw [hq]
    exact requiredState_cases q
  known := fun r p hp c hc => by
    rw [boot_length]
    obtain ⟨i, -, hw⟩ := mem_boot_conditions H progs hp hc
    have hlt : ∀ {j : Ref} {q : ChildProcess}, (fresh H progs)[j]? = some q →
        q.graphId < progs.length := by
      intro j q hq
      rw [fresh_get, Option.map_eq_some_iff] at hq
      obtain ⟨g, hg, rfl⟩ := hq
      exact (List.getElem?_eq_some_iff.mp hg).1
    obtain ⟨q, hq, -, ⟨h, -⟩ | ⟨-, j, -, q', hq', -, h⟩⟩ := mem_waits.mp hw
    · rw [h]; exact hlt hq
    · rw [h]; exact hlt hq'
  state := fun r p hp => by
    rw [boot_get, fresh_get, Option.map_map, Option.map_eq_some_iff] at hp
    obtain ⟨g, _, rfl⟩ := hp
    simp only [ChildProcess.registered, ChildProcess.new, Function.comp_apply]
    split
    · exact Or.inr rfl
    · exact Or.inl rfl

end Scinit
