/-
# Loading a configuration

Loading the files either fails or makes the processes of the entries that have
a name and a path, file after file in the order of the documents. So what is
said of `Config.ofPrograms` is said of every configuration that loads, and the
ids that were handed out stay good for every state of the event loop.

Key definitions: `namedEntries`, `fileEntries`, `Reads`, `Known`.
Key theorems: `load_eq`, `identity`.
-/
import Scinit.Lifecycle

namespace Scinit

open Transition

variable {Node : Type} {H : Host} {Y : YamlLib Node} {conf conf' : Config}

/-- The entry with its name and its path, if it has both. -/
def namedEntry (Y : YamlLib Node) (program : Node) : Option (Node × Node × Node) :=
  match Y.get program "name", Y.get program "path" with
  | .ok (some name), .ok (some path) => some (program, name, path)
  | _, _ => none

/-- The entries with a name and a path, in the order of the document. -/
def namedEntries (Y : YamlLib Node) (programs : Node) : List (Node × Node × Node) :=
  (Y.items programs).filterMap (namedEntry Y)

def fileEntries (Y : YamlLib Node) (file : Text) : List (Node × Node × Node) :=
  match Y.loadFile file with
  | .ok root =>
    match Y.get root "programs" with
    | .ok (some programs) => namedEntries Y programs
    | _ => []
  | .error _ => []

/-- The entry is read as the program, which has the entry's name and path. -/
structure Reads (H : Host) (Y : YamlLib Node) (entry : Node × Node × Node) (prog : Program) : Prop where
  read : readProgram H Y entry.1 entry.2.1 entry.2.2 = .ok prog
  name : Y.asString entry.2.1 = .ok prog.name
  path : Y.asString entry.2.2 = .ok prog.path

theorem orThrown_eq_ok {α : Type} {x : Except String α} {a : α} : orThrown x = .ok a ↔ x = .ok a := by
  cases x with
  | ok b => simp [orThrown]
  | error what => simp [orThrown]

theorem reads_of_readProgram {entry : Node × Node × Node} {prog : Program}
    (h : readProgram H Y entry.1 entry.2.1 entry.2.2 = .ok prog) : Reads H Y entry prog := by
  have hread := h
  simp only [readProgram, bind_eq_ok, orThrown_eq_ok] at h
  obtain ⟨type, -, args, -, caps, -, before, -, after, -, uid, -, gid, -, user, -, userId, -, group, -, groupId, -,
    tty, -, env, -, ⟨whitelist, vars⟩, -, name, hname, path, hpath, hprog⟩ := h
  cases hprog
  exact ⟨hread, hname, hpath⟩

/-- A turn of `parse_file` skips its entry or makes one process. -/
theorem parseProgram_ok {program : Node} (h : conf.parseProgram H Y program = .ok conf') :
    ∃ progs, List.Forall₂ (Reads H Y) (namedEntry Y program).toList progs ∧
      conf' = progs.foldl (Config.addProcess H) conf := by
  unfold Config.parseProgram at h
  rw [bind_eq_ok] at h
  obtain ⟨name, hname, h⟩ := h
  rw [orThrown_eq_ok] at hname
  cases name with
  | none =>
    cases h
    exact ⟨[], by simp [namedEntry, hname], rfl⟩
  | some name =>
    simp only [bind_eq_ok, orThrown_eq_ok] at h
    obtain ⟨path, hpath, h⟩ := h
    cases path with
    | none =>
      cases h
      exact ⟨[], by simp [namedEntry, hname, hpath], rfl⟩
    | some path =>
      simp only [bind_eq_ok] at h
      obtain ⟨prog, hprog, h⟩ := h
      cases h
      refine ⟨[prog], ?_, rfl⟩
      simp only [namedEntry, hname, hpath, Option.toList_some]
      exact .cons (reads_of_readProgram hprog) .nil

/-- A loop that makes processes makes those of its turns. -/
theorem foldlM_addProcess {α : Type} (entries : α → List (Node × Node × Node))
    {f : Config → α → Except LoadError Config}
    (hf : ∀ conf a conf', f conf a = .ok conf' → ∃ progs, List.Forall₂ (Reads H Y) (entries a) progs ∧
      conf' = progs.foldl (Config.addProcess H) conf) :
    ∀ {l : List α} {conf conf' : Config}, l.foldlM f conf = .ok conf' →
      ∃ progs, List.Forall₂ (Reads H Y) (l.flatMap entries) progs ∧
        conf' = progs.foldl (Config.addProcess H) conf
  | [], conf, conf', h => by
    cases h
    exact ⟨[], .nil, rfl⟩
  | a :: l, conf, conf', h => by
    rw [List.foldlM_cons, bind_eq_ok] at h
    obtain ⟨m, hm, h⟩ := h
    obtain ⟨progs, h1, rfl⟩ := hf _ _ _ hm
    obtain ⟨progs', h2, rfl⟩ := foldlM_addProcess entries hf h
    exact ⟨progs ++ progs', List.rel_append h1 h2, by rw [List.foldl_append]⟩

theorem loadFile_ok {file : Text} (h : Config.loadFile H Y conf file = .ok conf') :
    ∃ progs, List.Forall₂ (Reads H Y) (fileEntries Y file) progs ∧
      conf' = progs.foldl (Config.addProcess H) conf := by
  simp only [Config.loadFile, bind_eq_ok, orThrown_eq_ok] at h
  obtain ⟨root, hroot, programs, hp, h⟩ := h
  cases programs with
  | none => cases h
  | some programs =>
    have := foldlM_addProcess (H := H) (Y := Y) (f := Config.parseProgram H Y)
      (fun program => (namedEntry Y program).toList) (fun _ _ _ h => parseProgram_ok h) h
    simpa [fileEntries, hroot, hp, namedEntries, List.filterMap_eq_flatMap_toList] using this

/-- **Loading** makes the processes of the entries with a name and a path. -/
theorem load_eq {files : List Text} (h : Config.load H Y files = .ok conf) :
    ∃ progs, List.Forall₂ (Reads H Y) (files.flatMap (fileEntries Y)) progs ∧
      conf = Config.ofPrograms H progs :=
  foldlM_addProcess (fileEntries Y) (fun _ _ _ h => loadFile_ok h) h

/-- The id leads to one object, which has it, and to that object's handler. -/
def Known (s : Sys) (id : ℕ) : Prop :=
  ∃ ref p, s.handler.objForId[id]? = some (some ref) ∧ s.objs[ref]? = some p ∧ p.graphId = id ∧
    s.handler.sigForId[(id : ℤ)]? = some [ref]

theorem known_of_lt {base : Objs} {s : Sys} (hw : WellFormed base) (hi : Ids base s) {id : ℕ}
    (hid : id < base.length) : Known s id := by
  obtain ⟨p, hp⟩ : ∃ p, s.objs[id]? = some p := ⟨_, List.getElem?_eq_getElem (hi.length.symm ▸ hid)⟩
  exact ⟨id, p, by rw [hi.objForId, if_pos hid], hp, hi.graphId hw hp, by rw [hi.sigForId, if_pos hid]⟩

/-- **Identity.** The processes of a configuration that loads are those of the
entries with a name and a path, in order, with their places as ids; the tables
lead from the ids to them; and in every state of the event loop every id in a
condition or in the pid table is known. -/
theorem identity {files : List Text} (h : Config.load H Y files = .ok conf) :
    ∃ progs, List.Forall₂ (Reads H Y) (files.flatMap (fileEntries Y)) progs ∧
      conf.processes = (progs.mapIdx fun i g => ChildProcess.new H g i) ∧
      conf.processes.map ChildProcess.graphId = List.range progs.length ∧
      (∀ id : ℕ, conf.handler.objForId[id]? = if id < progs.length then some (some id) else none) ∧
      (∀ id : ℤ, conf.handler.sigForId[id]? =
        if 0 ≤ id ∧ id < progs.length then some [id.toNat] else none) ∧
      ∀ tr s, Run (step H) conf.start tr s →
        (∀ (r : Ref) (p : ChildProcess), s.objs[r]? = some p → ∀ c ∈ p.conditions, Known s c.1) ∧
        ∀ (pid : ℤ) (id : ℕ), s.handler.idForPid[pid]? = some id → Known s id := by
  obtain ⟨progs, hr, rfl⟩ := load_eq h
  have hids : (Config.ofPrograms H progs).processes.map ChildProcess.graphId =
      List.range progs.length := by
    rw [Config.ofPrograms_processes]
    refine List.ext_getElem? fun i => ?_
    rw [List.getElem?_map, List.getElem?_mapIdx]
    by_cases hi : i < progs.length
    · rw [List.getElem?_eq_getElem hi, List.getElem?_range hi]
      rfl
    · rw [List.getElem?_eq_none (by omega), List.getElem?_eq_none (by simpa using hi)]
      rfl
  refine ⟨progs, hr, Config.ofPrograms_processes H progs, hids, Config.ofPrograms_objForId H progs,
    Config.ofPrograms_sigForId H progs, fun tr s hrun => ?_⟩
  have hw := boot_wellFormed H progs
  have hi : Ids (boot H progs).objs s := run_ids hrun
  refine ⟨fun r p hp c hc => known_of_lt hw hi (hi.known hw hp hc), fun pid id hid => ?_⟩
  obtain ⟨p, hp, -⟩ := hi.pidOwner pid id hid
  exact known_of_lt hw hi (hi.lt_of_get hp)

/-- A file with two entries, the second without a path. -/
def twoEntries : YamlLib Yaml :=
  Yaml.lib (fun file => .ok (.map [(.scalar "programs".toList, .sequence
    [.map [(.scalar "name".toList, .scalar file), (.scalar "path".toList, .scalar "/a".toList),
      (.scalar "uid".toList, .scalar "0".toList)],
     .map [(.scalar "name".toList, .scalar "b".toList)]])]))
    (fun text => if text = "0".toList then some 0 else none) fun _ => none

theorem identity_twoEntries : ∃ conf, Config.load bareHost twoEntries ["x".toList, "y".toList] = .ok conf ∧
    conf.processes.map (fun p => (p.graphId, p.name, p.path)) =
      [(0, "x".toList, "/a".toList), (1, "y".toList, "/a".toList)] := by
  have hok : ((Config.load bareHost twoEntries ["x".toList, "y".toList]).toOption).isSome = true := by decide
  obtain ⟨conf, hconf⟩ := Option.isSome_iff_exists.mp hok
  have hload : Config.load bareHost twoEntries ["x".toList, "y".toList] = .ok conf := by
    cases he : Config.load bareHost twoEntries ["x".toList, "y".toList] with
    | error e =>
      rw [he] at hconf
      cases hconf
    | ok conf' =>
      rw [he] at hconf
      cases hconf
      rfl
  obtain ⟨progs, hr, hprocs, -⟩ := identity hload
  refine ⟨conf, hload, ?_⟩
  -- the two entries with a name and a path
  obtain ⟨x, _, hx, hrest, rfl⟩ := List.forall₂_cons_left_iff.mp hr
  obtain ⟨y, _, hy, hnil, rfl⟩ := List.forall₂_cons_left_iff.mp hrest
  obtain rfl := List.forall₂_nil_left_iff.mp hnil
  have hname : "x".toList = x.name := Except.ok.inj hx.name
  have hpath : "/a".toList = x.path := Except.ok.inj hx.path
  have hname' : "y".toList = y.name := Except.ok.inj hy.name
  have hpath' : "/a".toList = y.path := Except.ok.inj hy.path
  rw [hprocs]
  simp [ChildProcess.new, ← hname, ← hpath, ← hname', ← hpath']

end Scinit
