/-
# The environment whitelist

`handle_env` filters the host's variables by their names, but the map that is
left is flattened into one text and read back line by line. So what a child gets
is whitelisted where nothing that is passed on holds a newline. What follows a
newline is read as an entry of its own, and this does no harm only if it is one
of a name that may be passed on and that no other entry has (`whitelisted_iff`).

Key definitions: `MayPass`, `Whitelisted`, `ReadsAs`.
Key theorems: `mayPass_of_value`, `whitelisted_of_readsAs`, `exists_readsAs`,
`whitelisted_iff`.
-/
import Scinit.Contents

namespace Scinit

variable {H : Host} {p : ChildProcess} {vars : Vars} {entries : List Text} {extra done : List (Text × Text)}
  {k v : Text} {value : Text → Option Text} {parts : Text → List (Text × Text)}

/-! ### What may be passed on -/

/-- The names scinit may set itself. -/
def standardNames : List Text :=
  ["USER", "LANG", "LANGUAGE", "LOGNAME", "PATH", "SHELL", "TERM", "HOME", "PWD"].map String.toList

/-- A variable of this name may be passed on. -/
def MayPass (p : ChildProcess) (k : Text) : Prop :=
  k ∈ p.allowedEnvVars ∨ k ∈ standardNames ∨ k ∈ p.envExtraVars.map Prod.fst

/-- Each entry is `k=v` for a name that may be passed on, and no two have the same name. -/
def Whitelisted (p : ChildProcess) (entries : List Text) : Prop :=
  ∃ kvs : List (Text × Text), entries = kvs.map assignment ∧ (∀ kv ∈ kvs, MayPass p kv.1) ∧
    (kvs.map Prod.fst).Nodup

theorem Renders.names (h : Renders H p extra done) : done.map Prod.fst = extra.map Prod.fst := by
  induction h with
  | nil => rfl
  | snoc h hval ih => rw [List.map_append, List.map_append, ih]; rfl

theorem mem_standardNames {username : Text} (h : fixedDefault username k = some v) : k ∈ standardNames := by
  unfold fixedDefault at h
  split_ifs at h <;> subst k <;> decide

/-- What is set may be passed on. -/
theorem mayPass_of_value (hr : Renders H p p.envExtraVars done) (h : valueOf H p done k = some v) : MayPass p k := by
  simp only [valueOf, baseValue, Option.or_eq_some_iff, Option.ite_none_right_eq_some] at h
  rcases h with h | ⟨-, ⟨-, h⟩ | ⟨-, ⟨rfl, -⟩ | ⟨-, hk, -⟩⟩⟩
  · refine Or.inr (Or.inr ?_)
    rw [← hr.names]
    exact List.mem_map_of_mem (LastWins.mem_of_last_eq_some h)
  · exact Or.inr (Or.inl (mem_standardNames h))
  · exact Or.inr (Or.inl (by decide))
  · exact Or.inl hk

/-! ### What is read back -/

/-- What is passed on reads as entries that may be passed on: each text `k=v` is that
of the entries `parts k`, joined by newlines, and no name comes twice among them all. -/
structure ReadsAs (p : ChildProcess) (value : Text → Option Text) (parts : Text → List (Text × Text)) : Prop where
  text : ∀ k v, value k = some v → assignment (k, v) ++ ['\n'] = Lines.unlines '\n' ((parts k).map assignment)
  lines : ∀ k v, value k = some v → ∀ part ∈ parts k, '\n' ∉ assignment part
  mayPass : ∀ k v, value k = some v → ∀ part ∈ parts k, MayPass p part.1
  nodup : ∀ k v, value k = some v → ((parts k).map Prod.fst).Nodup
  apart : ∀ k v k' v', value k = some v → value k' = some v' → k ≠ k' →
    ((parts k).map Prod.fst).Disjoint ((parts k').map Prod.fst)

theorem nodup_names (vars : Vars) : (vars.toList.map Prod.fst).Nodup := by
  rw [Std.ExtTreeMap.map_fst_toList_eq_keys]
  exact Std.ExtTreeMap.nodup_keys

/-- Where no variable has a newline, each is an entry of its own. -/
theorem readsAs_of_newlineFree (hmay : ∀ k v, value k = some v → MayPass p k) (h : NewlineFree value) :
    ReadsAs p value fun k => (value k).toList.map fun v => (k, v) := by
  refine ⟨fun k v hv => ?_, fun k v hv => ?_, fun k v hv => ?_, fun k v hv => ?_, fun k v k' v' hv hv' hne => ?_⟩
  · simp [hv]
  · simpa [hv, newline_notMem_assignment] using h k v hv
  · simpa [hv] using hmay k v hv
  · simp [hv]
  · simpa [hv, hv', eq_comm] using hne

/-- The text of a variable is read as its own lines. -/
theorem handleEnv_lines (h : envVars H p = .ok vars) :
    handleEnv H p = .ok (vars.toList.flatMap fun kv => Lines.lines '\n' (assignment kv ++ ['\n'])) := by
  rw [handleEnv_eq h, Lines.lines_unlines, List.flatMap_map]

theorem whitelisted_of_readsAs (henv : envVars H p = .ok vars) (h : ReadsAs p (fun k => vars[k]?) parts)
    (he : handleEnv H p = .ok entries) : Whitelisted p entries := by
  have hget : ∀ {kv : Text × Text}, kv ∈ vars.toList → vars[kv.1]? = some kv.2 := fun hm =>
    Std.ExtTreeMap.mem_toList_iff_getElem?_eq_some.mp hm
  rw [handleEnv_lines henv, Except.ok.injEq] at he
  refine ⟨vars.toList.flatMap fun kv => parts kv.1, ?_, fun part hm => ?_, ?_⟩
  · rw [← he, List.map_flatMap]
    refine List.flatMap_congr fun kv hm => ?_
    rw [h.text kv.1 kv.2 (hget hm), Lines.lines_unlines_eq_iff]
    exact List.forall_mem_map.mpr (h.lines kv.1 kv.2 (hget hm))
  · obtain ⟨kv, hkv, hm⟩ := List.mem_flatMap.mp hm
    exact h.mayPass kv.1 kv.2 (hget hkv) part hm
  · rw [List.map_flatMap, List.nodup_flatMap]
    refine ⟨fun kv hm => h.nodup kv.1 kv.2 (hget hm), ?_⟩
    refine (List.pairwise_map.mp (nodup_names vars)).imp_of_mem fun hm hm' hne => ?_
    exact h.apart _ _ _ _ (hget hm) (hget hm') hne

/-- Entries that together are read from several texts are cut where these end. -/
theorem exists_parts {read : Text × Text → List Text} : ∀ {l kvs : List (Text × Text)}, (l.map Prod.fst).Nodup →
    kvs.map assignment = l.flatMap read → ∃ parts : Text → List (Text × Text),
      kvs = l.flatMap (fun kv => parts kv.1) ∧ ∀ kv ∈ l, (parts kv.1).map assignment = read kv
  | [], kvs, _, h => by
    rw [List.flatMap_nil, List.map_eq_nil_iff] at h
    exact ⟨fun _ => [], h, List.forall_mem_nil _⟩
  | kv :: l, kvs, hnd, h => by
    rw [List.map_cons, List.nodup_cons] at hnd
    rw [List.flatMap_cons, List.map_eq_append_iff] at h
    obtain ⟨first, rest, rfl, hfirst, hrest⟩ := h
    obtain ⟨parts, rfl, hparts⟩ := exists_parts hnd.2 hrest
    have hother : ∀ kv' ∈ l, kv'.1 ≠ kv.1 := fun kv' hm he => hnd.1 (he ▸ List.mem_map_of_mem hm)
    refine ⟨Function.update parts kv.1 first, ?_, List.forall_mem_cons.mpr ⟨?_, fun kv' hm => ?_⟩⟩
    · rw [List.flatMap_cons, Function.update_self]
      congr 1
      exact List.flatMap_congr fun kv' hm => (Function.update_of_ne (hother kv' hm) _ _).symm
    · rw [Function.update_self, hfirst]
    · rw [Function.update_of_ne (hother kv' hm), hparts kv' hm]

theorem exists_readsAs (henv : envVars H p = .ok vars) (he : handleEnv H p = .ok entries)
    (h : Whitelisted p entries) : ∃ parts, ReadsAs p (fun k => vars[k]?) parts := by
  obtain ⟨kvs, rfl, hmay, hnd⟩ := h
  have hmem : ∀ {k v}, vars[k]? = some v → (k, v) ∈ vars.toList := fun hv =>
    Std.ExtTreeMap.mem_toList_iff_getElem?_eq_some.mpr hv
  rw [handleEnv_lines henv, Except.ok.injEq] at he
  obtain ⟨parts, rfl, hparts⟩ := exists_parts (nodup_names vars) he.symm
  rw [List.map_flatMap, List.nodup_flatMap] at hnd
  refine ⟨parts, fun k v hv => ?_, fun k v hv part hm => ?_, fun k v hv part hm => ?_, fun k v hv => ?_,
    fun k v k' v' hv hv' hne => ?_⟩
  · rw [hparts (k, v) (hmem hv), Lines.unlines_lines_snoc]
  · have hline : assignment part ∈ (parts k).map assignment := List.mem_map_of_mem hm
    rw [hparts (k, v) (hmem hv)] at hline
    exact Lines.notMem_of_mem_lines '\n' hline
  · exact hmay part (List.mem_flatMap.mpr ⟨(k, v), hmem hv, hm⟩)
  · exact hnd.1 (k, v) (hmem hv)
  · have hsymm : Std.Symm (Function.onFun List.Disjoint fun kv : Text × Text => (parts kv.1).map Prod.fst) :=
      ⟨fun _ _ hd => hd.symm⟩
    exact hnd.2.forall (hmem hv) (hmem hv') fun he => hne (congrArg Prod.fst he)

/-- **What a child gets is whitelisted** if and only if no name and no value that is passed
on has a newline, or what is set off by the newlines reads as further entries for names
that may be passed on, none of them twice. -/
theorem whitelisted_iff (hwf : ∀ var ∈ H.environ, WellFormedEntry var) (h : handleEnv H p = .ok entries) :
    ∃ done, Renders H p p.envExtraVars done ∧ (Whitelisted p entries ↔
      NewlineFree (valueOf H p done) ∨ ∃ parts, ReadsAs p (valueOf H p done) parts) := by
  obtain ⟨base, henv, hbase⟩ := exists_base (p := p) hwf
  obtain ⟨done, hr⟩ : ∃ done, Renders H p p.envExtraVars done := by
    cases hextra : addExtraVars H p.envExtraVars base with
    | error e =>
      rw [handleEnv, henv, hextra] at h
      cases h
    | ok vars => exact exists_renders hbase hextra
  obtain ⟨vars, henv, hget⟩ := envVars_eq hwf hr
  refine ⟨done, hr, ?_⟩
  rw [← funext hget]
  constructor
  · exact fun hw => Or.inr (exists_readsAs henv h hw)
  · rintro (hfree | ⟨parts, hreads⟩)
    · refine whitelisted_of_readsAs henv (readsAs_of_newlineFree (fun k v hv => ?_) hfree) h
      rw [hget] at hv
      exact mayPass_of_value hr hv
    · exact whitelisted_of_readsAs henv hreads h

/-- A host with one variable. -/
def hostWith (var : String) : Host := { bareHost with environ := [var.toList] }

/-- A process of a program without anything in `env`. -/
def bareProcess (H : Host) : ChildProcess := ChildProcess.new H (plain 'p' "simple" [] []) 0

theorem localized_possible :
    (handleEnv (hostWith "LANG=en_GB") (bareProcess (hostWith "LANG=en_GB"))).isOk = true := by decide

theorem whitelisted_iff_localized : ∃ entries,
    handleEnv (hostWith "LANG=en_GB") (bareProcess (hostWith "LANG=en_GB")) = .ok entries ∧
      Whitelisted (bareProcess (hostWith "LANG=en_GB")) entries := by
  cases h : handleEnv (hostWith "LANG=en_GB") (bareProcess (hostWith "LANG=en_GB")) with
  | error e =>
    have hok := localized_possible
    rw [h] at hok
    cases hok
  | ok entries =>
    obtain ⟨done, hr, hiff⟩ := whitelisted_iff (fun var hvar =>
      ⟨"LANG".toList, "en_GB".toList, by decide, by decide, List.mem_singleton.mp hvar⟩) h
    refine ⟨entries, rfl, hiff.mpr (Or.inl (newlineFree_of_inputs ?_ (by decide) fun kv hkv => ?_))⟩
    · exact fun var hvar => List.mem_singleton.mp hvar ▸ by decide
    · have hnames := hr.names
      rw [List.map_eq_nil_iff.mp hnames] at hkv
      cases hkv

theorem smuggled : ((handleEnv (hostWith "LANG=x\nEVIL=1") (bareProcess (hostWith "LANG=x\nEVIL=1"))).toOption.map
    fun entries => decide ("EVIL=1".toList ∈ entries)) = some true := by decide

/-- What follows a newline in LANG is passed on as a variable of its own. -/
theorem not_whitelisted : ¬ ∀ (H : Host) (p : ChildProcess) (entries : List Text),
    (∀ var ∈ H.environ, ∃ name value, name ≠ [] ∧ '=' ∉ name ∧ var = assignment (name, value)) →
    handleEnv H p = .ok entries → Whitelisted p entries := by
  intro hall
  have hevil := smuggled
  cases h : handleEnv (hostWith "LANG=x\nEVIL=1") (bareProcess (hostWith "LANG=x\nEVIL=1")) with
  | error e =>
    rw [h] at hevil
    cases hevil
  | ok entries =>
    rw [h] at hevil
    have hin : "EVIL=1".toList ∈ entries := of_decide_eq_true (Option.some.inj hevil)
    obtain ⟨kvs, rfl, hmay, -⟩ := hall _ _ entries (fun var hvar =>
      ⟨"LANG".toList, "x\nEVIL=1".toList, by decide, by decide, List.mem_singleton.mp hvar⟩) h
    obtain ⟨⟨k, v⟩, hkv, hk⟩ := List.mem_map.mp hin
    have hprefix : k <+: "EVIL=1".toList := by
      rw [← hk]
      exact List.prefix_append _ _
    have hallowed : ∀ k ∈ (bareProcess (hostWith "LANG=x\nEVIL=1")).allowedEnvVars, ¬ k <+: "EVIL=1".toList := by
      decide
    have hstandard : ∀ k ∈ standardNames, ¬ k <+: "EVIL=1".toList := by decide
    rcases hmay _ hkv with hm | hm | hm
    · exact hallowed k hm hprefix
    · exact hstandard k hm hprefix
    · cases hm

end Scinit
