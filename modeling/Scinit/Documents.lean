/-
# What can be configured

Every list of entries can be written down and is read back as it was, but for one
thing: a group has to have a name. `parse_file` never stores a number in the
variable of the gid, so a group is looked up by its name or is that of the
initial value -1. What is said of all lists of entries whose groups have names is
said of configurations that there are (`configurable_iff`).

Key definitions: `YamlWriter`, `Program.document`.
Key theorems: `read_document`, `configurable_iff`.
-/
import Scinit.Loading
import Scinit.Users

namespace Scinit

variable {Node : Type} {H : Host} {Y : YamlLib Node} {progs : List Program} {g : Program} {uid : Text}
  {group : Option Text} {n : ℤ}

/-- How documents are written for yaml-cpp to read: texts, lists, maps with these fields and
maps of one pair, and the two truth values. -/
structure YamlWriter (Y : YamlLib Node) where
  scalar : Text → Node
  sequence : List Node → Node
  fields : List (String × Node) → Node
  pair : Text → Text → Node
  asString_scalar (text : Text) : Y.asString (scalar text) = .ok text
  isScalar_scalar (text : Text) : Y.isScalar (scalar text) = .ok true
  asBool_true : Y.asBool (scalar "true".toList) = .ok true
  asBool_false : Y.asBool (scalar "false".toList) = .ok false
  items_sequence (nodes : List Node) : Y.items (sequence nodes) = nodes
  get_fields (fs : List (String × Node)) (key : String) : Y.get (fields fs) key = .ok (fs.lookup key)
  isScalar_pair (key value : Text) : Y.isScalar (pair key value) = .ok false
  first_pair (key value : Text) : Y.first (pair key value) = .ok (scalar key, scalar value)

variable (W : YamlWriter Y)

/-! ### The document of an entry -/

namespace YamlWriter

def bool (b : Bool) : Node := W.scalar (if b then "true".toList else "false".toList)

/-- A list of texts. -/
def texts (ts : List Text) : Node := W.sequence (ts.map W.scalar)

/-- The value of `env`. -/
def env (g : Program) : Node :=
  W.sequence (g.envExtraWhitelist.map W.scalar ++ g.envExtraVars.map fun var => W.pair var.1 var.2)

/-- An entry as it can be written: the user by a number, the group by a name, if it has one. -/
def document (g : Program) (uid : Text) (group : Option Text) : Node :=
  W.fields ([("name", W.scalar g.name), ("path", W.scalar g.path), ("type", W.scalar g.type),
    ("args", W.texts g.args), ("capabilities", W.texts g.capabilities), ("before", W.texts g.before),
    ("after", W.texts g.after), ("uid", W.scalar uid), ("pty", W.bool g.wantTty),
    ("default_env", W.bool g.wantDefaultEnv), ("env", W.env g)] ++
    (group.map fun name => ("group", W.scalar name)).toList)

theorem asBool_bool (b : Bool) : Y.asBool (W.bool b) = .ok b := by
  cases b with
  | true => exact W.asBool_true
  | false => exact W.asBool_false

theorem mapM_texts (ts : List Text) : (ts.map W.scalar).mapM (fun str => orThrown (Y.asString str)) = .ok ts := by
  induction ts with
  | nil => rfl
  | cons text ts ih =>
    rw [List.map_cons, List.mapM_cons, ih, W.asString_scalar]
    rfl

theorem foldlM_env (whitelist : List Text) (vars : List (Text × Text)) :
    (whitelist.map W.scalar ++ vars.map fun var => W.pair var.1 var.2).foldlM (readEnvEntry Y) ([], []) =
      .ok (whitelist, vars) := by
  have hvars : ∀ (vars : List (Text × Text)) (acc : List Text × List (Text × Text)),
      (vars.map fun var => W.pair var.1 var.2).foldlM (readEnvEntry Y) acc = .ok (acc.1, acc.2 ++ vars) := by
    intro vars
    induction vars with
    | nil => exact fun acc => by rw [List.append_nil]; rfl
    | cons var vars ih =>
      intro acc
      have hvar : readEnvEntry Y acc (W.pair var.1 var.2) = .ok (acc.1, acc.2 ++ [var]) := by
        rw [readEnvEntry, W.isScalar_pair, W.first_pair]
        show (orThrown (Y.asString (W.scalar var.1)) >>= fun key => orThrown (Y.asString (W.scalar var.2)) >>= _) = _
        rw [W.asString_scalar, W.asString_scalar]
        rfl
      rw [List.map_cons, List.foldlM_cons, hvar]
      refine (ih (acc.1, acc.2 ++ [var])).trans ?_
      rw [List.append_assoc, List.singleton_append]
  have hwhitelist : ∀ (whitelist : List Text) (acc : List Text × List (Text × Text)),
      (whitelist.map W.scalar).foldlM (readEnvEntry Y) acc = .ok (acc.1 ++ whitelist, acc.2) := by
    intro whitelist
    induction whitelist with
    | nil => exact fun acc => by rw [List.append_nil]; rfl
    | cons text whitelist ih =>
      intro acc
      have htext : readEnvEntry Y acc (W.scalar text) = .ok (acc.1 ++ [text], acc.2) := by
        rw [readEnvEntry, W.isScalar_scalar]
        show (orThrown (Y.asString (W.scalar text)) >>= _) = _
        rw [W.asString_scalar]
        rfl
      rw [List.map_cons, List.foldlM_cons, htext]
      refine (ih (acc.1 ++ [text], acc.2)).trans ?_
      rw [List.append_assoc, List.singleton_append]
  rw [List.foldlM_append, hwhitelist]
  exact hvars vars (whitelist, [])

end YamlWriter

/-- The id of a group that is written by its name, or not at all. -/
def groupId (H : Host) (group : Option Text) : Option UInt32 :=
  match group with
  | none => some (UInt32.ofInt (-1))
  | some name => H.getgrnam name

section

variable {node value : Node} {key : String} {α : Type} {as : Node → Except String α} {a : α} {texts : List Text}

theorem getAs_of_some (h : Y.get node key = .ok (some value)) (ha : as value = .ok a) :
    Y.getAs as node key = .ok (some a) := by
  rw [YamlLib.getAs, h]
  show some <$> orThrown (as value) = _
  rw [ha]
  rfl

theorem getAs_of_none (h : Y.get node key = .ok none) : Y.getAs as node key = .ok none := by
  rw [YamlLib.getAs, h]
  rfl

theorem strList_of_texts (h : Y.get node key = .ok (some (W.texts texts))) :
    yamlNodeToStrList Y node key = .ok texts := by
  rw [yamlNodeToStrList, h]
  show (Y.items (W.texts texts)).mapM _ = _
  rw [YamlWriter.texts, W.items_sequence]
  exact W.mapM_texts texts

end

theorem resolveGroup_document (hgroup : groupId H group = some g.gid) :
    resolveGroup H group (some n) none = .ok g.gid := by
  cases group with
  | none =>
    have hgid : UInt32.ofInt (-1) = g.gid := Option.some.inj hgroup
    rw [← hgid]
    rfl
  | some name =>
    have hgid : H.getgrnam name = some g.gid := hgroup
    simp only [resolveGroup, resolveName, Option.isSome_some, Bool.true_or, if_true, Option.getD_some, hgid]

/-- **What is written is read back.** -/
theorem read_document (huid : Y.asInt (W.scalar uid) = .ok n) (hn : UInt32.ofInt n = g.uid)
    (hgroup : groupId H group = some g.gid) :
    readProgram H Y (W.document g uid group) (W.scalar g.name) (W.scalar g.path) = .ok g := by
  have hget : ∀ key, Y.get (W.document g uid group) key = _ := W.get_fields _
  have htype : Y.getAs Y.asString (W.document g uid group) "type" = .ok (some g.type) :=
    getAs_of_some (by rw [hget]; rfl) (W.asString_scalar _)
  have hargs : yamlNodeToStrList Y (W.document g uid group) "args" = .ok g.args :=
    strList_of_texts W (by rw [hget]; rfl)
  have hcaps : yamlNodeToStrList Y (W.document g uid group) "capabilities" = .ok g.capabilities :=
    strList_of_texts W (by rw [hget]; rfl)
  have hbefore : yamlNodeToStrList Y (W.document g uid group) "before" = .ok g.before :=
    strList_of_texts W (by rw [hget]; rfl)
  have hafter : yamlNodeToStrList Y (W.document g uid group) "after" = .ok g.after :=
    strList_of_texts W (by rw [hget]; rfl)
  have huid' : Y.getAs Y.asInt (W.document g uid group) "uid" = .ok (some n) :=
    getAs_of_some (by rw [hget]; rfl) huid
  have hgid : Y.getAs Y.asInt (W.document g uid group) "gid" = .ok none :=
    getAs_of_none (by rw [hget]; cases group <;> rfl)
  have huser : Y.getAs Y.asString (W.document g uid group) "user" = .ok none :=
    getAs_of_none (by rw [hget]; cases group <;> rfl)
  have hgroup' : Y.getAs Y.asString (W.document g uid group) "group" = .ok group := by
    cases group with
    | none => exact getAs_of_none (by rw [hget]; rfl)
    | some name => exact getAs_of_some (by rw [hget]; rfl) (W.asString_scalar _)
  have hpty : Y.getAs Y.asBool (W.document g uid group) "pty" = .ok (some g.wantTty) :=
    getAs_of_some (by rw [hget]; rfl) (W.asBool_bool _)
  have hdefault : Y.getAs Y.asBool (W.document g uid group) "default_env" = .ok (some g.wantDefaultEnv) :=
    getAs_of_some (by rw [hget]; rfl) (W.asBool_bool _)
  have henv : readEnv Y (W.document g uid group) = .ok (g.envExtraWhitelist, g.envExtraVars) := by
    rw [readEnv, show Y.get (W.document g uid group) "env" = .ok (some (W.env g)) by rw [hget]; rfl]
    show (Y.items (W.env g)).foldlM _ _ = _
    rw [YamlWriter.env, W.items_sequence]
    exact W.foldlM_env _ _
  have huserId : resolveUser H none (some n) none = .ok g.uid := by
    rw [← hn]
    rfl
  unfold readProgram
  rw [htype, hargs, hcaps, hbefore, hafter, huid', hgid, huser, hgroup', hpty, hdefault, henv, W.asString_scalar,
    W.asString_scalar]
  simp only [bind, Except.bind, huserId, resolveGroup_document hgroup, orThrown]
  rfl

/-! ### The document of a configuration -/

/-- A file with these entries. -/
def YamlWriter.file (entries : List Node) : Node := W.fields [("programs", W.sequence entries)]

theorem parseProgram_document (conf : Config) (hread : readProgram H Y (W.document g uid group) (W.scalar g.name)
    (W.scalar g.path) = .ok g) : conf.parseProgram H Y (W.document g uid group) = .ok (conf.addProcess H g) := by
  have hget : ∀ key, Y.get (W.document g uid group) key = _ := W.get_fields _
  have hname : Y.get (W.document g uid group) "name" = .ok (some (W.scalar g.name)) := by rw [hget]; rfl
  have hpath : Y.get (W.document g uid group) "path" = .ok (some (W.scalar g.path)) := by rw [hget]; rfl
  simp only [Config.parseProgram, hname, hpath, orThrown, bind, Except.bind, hread]
  rfl

/-- Entries that can be read back one by one are loaded. -/
theorem exists_entries : ∀ progs : List Program, (∀ g ∈ progs,
    (∃ uid n, Y.asInt (W.scalar uid) = .ok n ∧ UInt32.ofInt n = g.uid) ∧ ∃ group, groupId H group = some g.gid) →
      ∃ entries : List Node, ∀ conf, entries.foldlM (Config.parseProgram H Y) conf =
        .ok (progs.foldl (Config.addProcess H) conf)
  | [], _ => ⟨[], fun _ => rfl⟩
  | g :: progs, h => by
    obtain ⟨⟨uid, n, huid, hn⟩, group, hgroup⟩ := h g List.mem_cons_self
    obtain ⟨entries, hentries⟩ := exists_entries progs fun g' hg' => h g' (List.mem_cons_of_mem _ hg')
    refine ⟨W.document g uid group :: entries, fun conf => ?_⟩
    rw [List.foldlM_cons, parseProgram_document W conf (read_document W huid hn hgroup)]
    exact hentries _

/-- A group that is read has a name, or is that of -1. -/
theorem groupId_of_read {entry name path : Node} (h : readProgram H Y entry name path = .ok g) :
    ∃ group, groupId H group = some g.gid := by
  obtain ⟨f, -, -, hg⟩ := ids_of_read h
  unfold gidFrom at hg
  by_cases hused : (f.group.isSome || !didSetNumeric f.uid f.gid) = true
  · exact ⟨some _, lookup_of_used hused hg⟩
  · rw [resolveName_of_number (by simpa using hused)] at hg
    exact ⟨none, congrArg some (Except.ok.inj hg)⟩

theorem ofPrograms_gids (H : Host) (progs : List Program) :
    (Config.ofPrograms H progs).processes.map ChildProcess.gid = progs.map Program.gid := by
  rw [Config.ofPrograms_processes]
  refine List.ext_getElem? fun i => ?_
  rw [List.getElem?_map, List.getElem?_mapIdx, List.getElem?_map, Option.map_map]
  rfl

theorem load_file {entries : List Node} {conf : Config}
    (h : entries.foldlM (Config.parseProgram H Y) {} = .ok conf) (file : Text) :
    Config.load H { Y with loadFile := fun _ => .ok (W.file entries) } [file] = .ok conf := by
  have hget : Y.get (W.file entries) "programs" = .ok (some (W.sequence entries)) := W.get_fields _ _
  have hfile : Config.loadFile H { Y with loadFile := fun _ => .ok (W.file entries) } {} file = .ok conf := by
    simp only [Config.loadFile, hget, orThrown, bind, Except.bind]
    show (Y.items (W.sequence entries)).foldlM (Config.parseProgram H Y) {} = _
    rw [W.items_sequence]
    exact h
  rw [Config.load, List.foldlM_cons, hfile]
  rfl

theorem exists_read {entries : List (Node × Node × Node)} (h : List.Forall₂ (Reads H Y) entries progs) :
    ∀ g ∈ progs, ∃ entry ∈ entries, Reads H Y entry g := by
  induction h with
  | nil => exact fun g hg => absurd hg List.not_mem_nil
  | @cons entry g entries progs hread _ ih =>
    refine List.forall_mem_cons.mpr ⟨⟨entry, List.mem_cons_self, hread⟩, fun g' hg' => ?_⟩
    obtain ⟨entry', hm, hread'⟩ := ih g' hg'
    exact ⟨entry', List.mem_cons_of_mem _ hm, hread'⟩

/-- **What can be configured**: any entries, if each of their groups has a name or is
that of -1. -/
theorem configurable_iff (hint : ∀ g ∈ progs, ∃ uid n, Y.asInt (W.scalar uid) = .ok n ∧ UInt32.ofInt n = g.uid) :
    (∃ (loadFile : Text → Except String Node) (files : List Text),
      Config.load H { Y with loadFile := loadFile } files = .ok (Config.ofPrograms H progs)) ↔
        ∀ g ∈ progs, (∃ name, H.getgrnam name = some g.gid) ∨ g.gid = UInt32.ofInt (-1) := by
  constructor
  · rintro ⟨loadFile, files, hload⟩ g hg
    obtain ⟨progs', hr, hconf⟩ := load_eq hload
    have hgids : progs.map Program.gid = progs'.map Program.gid := by
      rw [← ofPrograms_gids H, hconf, ofPrograms_gids]
    have hmem : g.gid ∈ progs'.map Program.gid := hgids ▸ List.mem_map_of_mem hg
    obtain ⟨g', hg', hgid⟩ := List.mem_map.mp hmem
    obtain ⟨entry, -, hread⟩ := exists_read hr g' hg'
    obtain ⟨group, hgroup⟩ := groupId_of_read hread.read
    rw [hgid] at hgroup
    cases group with
    | none => exact Or.inr (Option.some.inj hgroup).symm
    | some name => exact Or.inl ⟨name, hgroup⟩
  · intro hgroups
    obtain ⟨entries, hentries⟩ := exists_entries (H := H) W progs fun g hg => by
      refine ⟨hint g hg, ?_⟩
      rcases hgroups g hg with ⟨name, hname⟩ | hgid
      · exact ⟨some name, hname⟩
      · exact ⟨none, congrArg some hgid.symm⟩
    exact ⟨_, [[]], load_file W (hentries {}) []⟩

/-- Numbers and truth values as far as `chainAB` needs them. -/
def smallYaml : YamlLib Yaml :=
  Yaml.lib (fun _ => .error "bad file") (fun text => if text = "0".toList then some 0 else none) fun text =>
    if text = "true".toList then some true else if text = "false".toList then some false else none

/-- A field is found under its own key. -/
theorem Yaml.find?_lookup (fs : List (String × Yaml)) (key : String) :
    ((fs.map fun field => (Yaml.scalar field.1.toList, field.2)).find? fun e => isKey key.toList e.1).map Prod.snd =
      fs.lookup key := by
  induction fs with
  | nil => rfl
  | cons field fs ih =>
    rw [List.map_cons, List.find?_cons, List.lookup_cons]
    have hkey : isKey key.toList (.scalar field.1.toList) = (key == field.1) := by
      rw [isKey, Bool.beq_eq_decide_eq, decide_eq_decide, String.toList_inj, eq_comm]
    rw [hkey]
    cases key == field.1 with
    | true => rfl
    | false => exact ih

/-- Documents as trees. -/
def treeWriter : YamlWriter smallYaml where
  scalar := .scalar
  sequence := .sequence
  fields fs := .map (fs.map fun field => (.scalar field.1.toList, field.2))
  pair key value := .map [(.scalar key, .scalar value)]
  asString_scalar _ := rfl
  isScalar_scalar _ := rfl
  asBool_true := rfl
  asBool_false := rfl
  items_sequence _ := rfl
  get_fields fs key := congrArg Except.ok (Yaml.find?_lookup fs key)
  isScalar_pair _ _ := rfl
  first_pair _ _ := rfl

/-- The host knows the group root. -/
def rootGroupHost : Host := { bareHost with getgrnam := fun name => if name = "root".toList then some 0 else none }

theorem configurable_iff_chainAB : ∃ (loadFile : Text → Except String Yaml) (files : List Text),
    Config.load rootGroupHost { smallYaml with loadFile := loadFile } files =
      .ok (Config.ofPrograms rootGroupHost chainAB) := by
  have hzero : ∀ g ∈ chainAB, g.uid = 0 ∧ g.gid = 0 := by decide
  refine (configurable_iff treeWriter fun g hg => ?_).mpr fun g hg => ?_
  · exact ⟨"0".toList, 0, rfl, (hzero g hg).1.symm⟩
  · exact Or.inl ⟨"root".toList, by rw [(hzero g hg).2]; rfl⟩

end Scinit
