/-
# The environment a child gets

`handle_env` lays four layers over one another: the whitelisted variables of
the host, `USER`, the defaults, and `env_extra_vars`, whose templates see the
layers below and what earlier ones have set. The map is rendered into one text
and read back line by line, which gives an entry for each variable where no name
and no value holds a newline (`environment_contents`).

Key definitions: `fixedDefault`, `baseValue`, `valueOf`, `Renders`, `NewlineFree`.
Key theorems: `setDefaults_get`, `addExtraVars_eq`, `exists_renders`, `handleEnv_eq_iff`,
`environment_contents`.
-/
import Scinit.Config
import Scinit.HostVars

namespace Scinit

variable {H : Host} {p : ChildProcess} {vars vars' : Vars} {extra done : List (Text × Text)} {k v : Text}

/-! ### The layers -/

/-- The value that `want_default_env` fixes for a name. -/
def fixedDefault (username k : Text) : Option Text :=
  if k = "LANG".toList then some "C".toList
  else if k = "LANGUAGE".toList then some "en".toList
  else if k = "LOGNAME".toList then some username
  else if k = "PATH".toList then some "/usr/local/bin:/usr/bin:/bin".toList
  else if k = "SHELL".toList then some "/bin/bash".toList
  else if k = "TERM".toList then some "screen".toList
  else if k = "HOME".toList then some "/app".toList
  else if k = "PWD".toList then some "/app".toList
  else none

/-- What a variable is below `env_extra_vars`: its default, the name of the
user, or what the host has. -/
def baseValue (H : Host) (p : ChildProcess) (k : Text) : Option Text :=
  (if p.wantDefaultEnv then fixedDefault p.username k else none).or
    ((if k = "USER".toList then some p.username else none).or
      (if k ∈ p.allowedEnvVars then hostValue H.environ k else none))

/-- What a variable is once the templates of `done` are rendered. -/
def valueOf (H : Host) (p : ChildProcess) (done : List (Text × Text)) (k : Text) : Option Text :=
  (LastWins.last k done).or (baseValue H p k)

/-- `done` are the names of `extra` with the renderings of their templates, each
against the variables as they are before it. -/
inductive Renders (H : Host) (p : ChildProcess) : List (Text × Text) → List (Text × Text) → Prop
  | nil : Renders H p [] []
  | snoc {extra done : List (Text × Text)} {name template val : Text} : Renders H p extra done →
      (∀ vars : Vars, (∀ k : Text, vars[k]? = valueOf H p done k) → H.render template vars = .ok val) →
      Renders H p (extra ++ [(name, template)]) (done ++ [(name, val)])

/-- Each default is set once. -/
theorem last_defaultEnv (username k : Text) : LastWins.last k (defaultEnv username) = fixedDefault username k := by
  unfold defaultEnv fixedDefault
  iterate 8 rw [LastWins.last_cons_of_notMem (by simp only [List.map_cons, List.map_nil]; decide)]
  rfl

theorem setDefaults_get (hhost : ∀ k : Text, vars[k]? = if k ∈ p.allowedEnvVars then hostValue H.environ k else none)
    (k : Text) : (setDefaults p vars)[k]? = baseValue H p k := by
  have huser : (vars.insert "USER".toList p.username)[k]? = (if k = "USER".toList then some p.username else none).or
      (if k ∈ p.allowedEnvVars then hostValue H.environ k else none) := by
    rw [LastWins.getElem?_insert, hhost]
    simp only [eq_comm]
  unfold setDefaults baseValue
  dsimp only
  split
  · rw [← huser, ← last_defaultEnv]
    exact LastWins.getElem?_insertAll (defaultEnv p.username) _ k
  · rw [huser, Option.none_or]

/-- **The loop over `env_extra_vars`** sets each name to its rendering. -/
theorem addExtraVars_eq (h : Renders H p extra done) (hbase : ∀ k : Text, vars[k]? = baseValue H p k) :
    addExtraVars H extra vars = .ok (LastWins.insertAll vars done) := by
  unfold addExtraVars
  induction h with
  | nil => rfl
  | @snoc extra done name template val h hval ih =>
    have hget : ∀ k : Text, (LastWins.insertAll vars done)[k]? = valueOf H p done k := by
      intro k
      rw [LastWins.getElem?_insertAll, hbase, valueOf]
    rw [List.foldlM_append, ih]
    show addExtraVar H (LastWins.insertAll vars done) (name, template) >>= pure = _
    rw [addExtraVar, hval _ hget, LastWins.insertAll_snoc]
    rfl

/-- An entry `NAME=VALUE`. -/
def WellFormedEntry (var : Text) : Prop := ∃ name value, name ≠ [] ∧ '=' ∉ name ∧ var = assignment (name, value)

theorem WellFormedEntry.mem (h : WellFormedEntry v) : '=' ∈ v := by
  obtain ⟨name, value, -, -, rfl⟩ := h
  exact List.mem_append_right _ List.mem_cons_self

theorem WellFormedEntry.head (h : WellFormedEntry v) : v.head? ≠ some '=' := by
  obtain ⟨name, value, hne, hn, rfl⟩ := h
  obtain ⟨c, name, rfl⟩ := List.exists_cons_of_ne_nil hne
  intro hc
  exact hn (Option.some.inj hc ▸ List.mem_cons_self)

/-- What the loops over the host's variables and the defaults leave. -/
theorem exists_base (hwf : ∀ var ∈ H.environ, WellFormedEntry var) : ∃ base : Vars,
    envVars H p = addExtraVars H p.envExtraVars base ∧ ∀ k : Text, base[k]? = baseValue H p k := by
  obtain ⟨scanned, hscan⟩ : ∃ scanned, scanEnviron p.allowedEnvVars H.environ = .ok scanned :=
    ⟨_, scanEnviron_eq fun var hm => (hwf var hm).head⟩
  refine ⟨setDefaults p scanned, ?_, setDefaults_get (scanned_get hscan fun var hm => (hwf var hm).mem)⟩
  unfold envVars
  rw [hscan]

/-- The variables that are rendered. -/
theorem envVars_eq (hwf : ∀ var ∈ H.environ, WellFormedEntry var) (hr : Renders H p p.envExtraVars done) :
    ∃ vars, envVars H p = .ok vars ∧ ∀ k : Text, vars[k]? = valueOf H p done k := by
  obtain ⟨base, henv, hbase⟩ := exists_base (p := p) hwf
  refine ⟨LastWins.insertAll base done, henv.trans (addExtraVars_eq hr hbase), fun k => ?_⟩
  rw [LastWins.getElem?_insertAll, hbase, valueOf]

/-- Where the loop over `env_extra_vars` ends well, each template has a rendering. -/
theorem exists_renders (hbase : ∀ k : Text, vars[k]? = baseValue H p k) (h : addExtraVars H extra vars = .ok vars') :
    ∃ done, Renders H p extra done := by
  induction extra using List.reverseRecOn generalizing vars' with
  | nil => exact ⟨[], .nil⟩
  | append_singleton extra pair ih =>
    unfold addExtraVars at h
    rw [List.foldlM_append, bind_eq_ok] at h
    obtain ⟨mid, hmid, hlast⟩ := h
    obtain ⟨done, hr⟩ := ih hmid
    have hmid : mid = LastWins.insertAll vars done := Except.ok.inj (hmid.symm.trans (addExtraVars_eq hr hbase))
    have hget : ∀ k : Text, mid[k]? = valueOf H p done k := fun k => by
      rw [hmid, LastWins.getElem?_insertAll, hbase, valueOf]
    cases hval : H.render pair.2 mid with
    | error what =>
      simp only [List.foldlM_cons, addExtraVar, hval] at hlast
      cases hlast
    | ok val =>
      refine ⟨done ++ [(pair.1, val)], hr.snoc fun vars₁ hvars₁ => ?_⟩
      have hsame : vars₁ = mid := Std.ExtTreeMap.ext_getElem? fun k => (hvars₁ k).trans (hget k).symm
      rw [hsame, hval]

/-! ### The entries -/

/-- No name and no value has a newline. -/
def NewlineFree (value : Text → Option Text) : Prop := ∀ k v, value k = some v → '\n' ∉ k ∧ '\n' ∉ v

theorem newline_notMem_assignment (k v : Text) : '\n' ∉ assignment (k, v) ↔ '\n' ∉ k ∧ '\n' ∉ v := by
  simp [assignment]

theorem newline_notMem_default {username : Text} (huser : '\n' ∉ username) (h : fixedDefault username k = some v) :
    '\n' ∉ k ∧ '\n' ∉ v := by
  unfold fixedDefault at h
  split_ifs at h <;> cases h <;> subst k <;> refine ⟨by decide, ?_⟩
  all_goals first
    | exact huser
    | decide

/-- Where nothing that is put in has a newline, no variable has one. -/
theorem newlineFree_of_inputs (hhost : ∀ var ∈ H.environ, '\n' ∉ var) (huser : '\n' ∉ p.username)
    (hdone : ∀ kv ∈ done, '\n' ∉ kv.1 ∧ '\n' ∉ kv.2) : NewlineFree (valueOf H p done) := by
  intro k v h
  simp only [valueOf, baseValue, Option.or_eq_some_iff, Option.ite_none_right_eq_some, Option.some.injEq] at h
  rcases h with h | ⟨-, ⟨-, h⟩ | ⟨-, ⟨rfl, rfl⟩ | ⟨-, -, h⟩⟩⟩
  · exact hdone _ (LastWins.mem_of_last_eq_some h)
  · exact newline_notMem_default huser h
  · exact ⟨by decide, huser⟩
  · obtain ⟨var, hvar, hsplit⟩ := List.mem_filterMap.mp (LastWins.mem_of_last_eq_some h)
    have hn := hhost var hvar
    rw [eq_of_splitEntry hsplit] at hn
    exact (newline_notMem_assignment k v).mp hn

theorem handleEnv_eq (h : envVars H p = .ok vars) :
    handleEnv H p = .ok (Lines.lines '\n' (Lines.unlines '\n' (vars.toList.map assignment))) := by
  unfold handleEnv renderVars
  rw [h]

/-- **One entry for each variable**, if and only if none has a newline. -/
theorem handleEnv_eq_iff (h : envVars H p = .ok vars) :
    handleEnv H p = .ok (vars.toList.map assignment) ↔ NewlineFree fun k => vars[k]? := by
  rw [handleEnv_eq h, Except.ok.injEq, Lines.lines_unlines_eq_iff, List.forall_mem_map]
  constructor
  · intro hn k v hv
    exact (newline_notMem_assignment k v).mp (hn (k, v) (Std.ExtTreeMap.mem_toList_iff_getElem?_eq_some.mpr hv))
  · rintro hn ⟨k, v⟩ hm
    exact (newline_notMem_assignment k v).mpr (hn k v (Std.ExtTreeMap.mem_toList_iff_getElem?_eq_some.mp hm))

/-- The order of a map of texts is that of the bytes. -/
theorem lt_of_compare : ∀ {a b : Text}, compare a b = .lt → a < b
  | [], [], h => by cases h
  | [], _ :: _, _ => List.nil_lt_cons _ _
  | _ :: _, [], h => by cases h
  | c :: a, d :: b, h => by
    rw [List.compare_cons_cons, Ordering.then_eq_lt] at h
    rw [List.cons_lt_cons_iff]
    rcases h with h | ⟨h, hab⟩
    · exact Or.inl (compare_lt_iff_lt.mp h)
    · exact Or.inr ⟨compare_eq_iff_eq.mp h, lt_of_compare hab⟩

/-- **What a child's environment is**: one entry `k=v` for each variable, in the
order of the names, with the last rendering for the name, else its default, else
the user for `USER`, else what the host has. -/
theorem environment_contents (hwf : ∀ var ∈ H.environ, WellFormedEntry var) (hr : Renders H p p.envExtraVars done)
    (hhost : ∀ var ∈ H.environ, '\n' ∉ var) (huser : '\n' ∉ p.username)
    (hdone : ∀ kv ∈ done, '\n' ∉ kv.1 ∧ '\n' ∉ kv.2) :
    ∃ kvs : List (Text × Text), handleEnv H p = .ok (kvs.map assignment) ∧
      (kvs.map Prod.fst).Pairwise (· < ·) ∧ ∀ k v, (k, v) ∈ kvs ↔ valueOf H p done k = some v := by
  obtain ⟨vars, henv, hget⟩ := envVars_eq hwf hr
  have hfree : NewlineFree fun k => vars[k]? := by
    rw [funext hget]
    exact newlineFree_of_inputs hhost huser hdone
  refine ⟨vars.toList, (handleEnv_eq_iff henv).mpr hfree, ?_, fun k v => ?_⟩
  · rw [Std.ExtTreeMap.map_fst_toList_eq_keys]
    exact Std.ExtTreeMap.ordered_keys.imp lt_of_compare
  · rw [Std.ExtTreeMap.mem_toList_iff_getElem?_eq_some, hget]

/-- A host with three variables. -/
def editorHost : Host := { bareHost with environ := ["LANG=de".toList, "EDITOR=vi".toList, "PATH=/sbin".toList] }

/-- A process with the defaults, that may see `EDITOR`, and sets `A` and `LANG`. -/
def editorProcess : ChildProcess :=
  ChildProcess.new editorHost { plain 'p' "simple" [] [] with
    wantDefaultEnv := true
    envExtraWhitelist := ["EDITOR".toList]
    envExtraVars := [("A".toList, "x".toList), ("LANG".toList, "fr".toList)] } 0

theorem environment_contents_editor : ∃ kvs : List (Text × Text),
    handleEnv editorHost editorProcess = .ok (kvs.map assignment) ∧ (kvs.map Prod.fst).Pairwise (· < ·) ∧
      ("A".toList, "x".toList) ∈ kvs ∧ ("LANG".toList, "fr".toList) ∈ kvs ∧
      ("LOGNAME".toList, editorProcess.username) ∈ kvs ∧
      ("PATH".toList, "/usr/local/bin:/usr/bin:/bin".toList) ∈ kvs ∧ ("EDITOR".toList, "vi".toList) ∈ kvs := by
  have hwf : ∀ var ∈ editorHost.environ, WellFormedEntry var := by
    intro var hm
    simp only [editorHost, List.mem_cons, List.not_mem_nil, or_false] at hm
    rcases hm with rfl | rfl | rfl
    · exact ⟨"LANG".toList, "de".toList, by decide, by decide, rfl⟩
    · exact ⟨"EDITOR".toList, "vi".toList, by decide, by decide, rfl⟩
    · exact ⟨"PATH".toList, "/sbin".toList, by decide, by decide, rfl⟩
  have hrenders : Renders editorHost editorProcess editorProcess.envExtraVars
      [("A".toList, "x".toList), ("LANG".toList, "fr".toList)] :=
    .snoc (.snoc .nil fun _ _ => rfl) fun _ _ => rfl
  obtain ⟨kvs, henv, hord, hmem⟩ := environment_contents hwf hrenders (by decide) (by decide) (by decide)
  refine ⟨kvs, henv, hord, ?_, ?_, ?_, ?_, ?_⟩ <;> exact (hmem _ _).mpr (by decide)

end Scinit
