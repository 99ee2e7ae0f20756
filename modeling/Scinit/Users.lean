/-
# The user and the group of a process

An entry may give a user and a group by name (`user`, `group`) and by number
(`uid`, `gid`); a name goes before a number, and an entry with none of the four
is for nobody and nogroup. `parse_file` stores the number of `gid` in the
variable of the uid, and either number keeps the group from its default: so the
uid is right if and only if the entry names its user or has no `gid`, and the
gid if and only if it names its group or has no number (`ids_right_iff`).

Key definitions: `IdFields`, `idFields`, `uidFrom`, `gidFrom`, `IdRight`.
Key theorems: `readProgram_noExit`, `uid_right_iff`, `gid_right_iff`, `ids_right_iff`.
-/
import Scinit.Config

namespace Scinit

variable {Node : Type} {H : Host} {Y : YamlLib Node} {entry name path : Node} {prog : Program}

/-! ### The four fields -/

/-- The fields of an entry that decide its ids. -/
structure IdFields where
  user : Option Text := none
  group : Option Text := none
  uid : Option ℤ := none
  gid : Option ℤ := none

/-- Which of them are given. -/
def IdFields.given (f : IdFields) : Bool × Bool × Bool × Bool :=
  (f.user.isSome, f.group.isSome, f.uid.isSome, f.gid.isSome)

/-- The fields as the entry has them. -/
def idFields (Y : YamlLib Node) (entry : Node) : Except LoadError IdFields := do
  let uid ← Y.getAs Y.asInt entry "uid"
  let gid ← Y.getAs Y.asInt entry "gid"
  let user ← Y.getAs Y.asString entry "user"
  let group ← Y.getAs Y.asString entry "group"
  pure { user := user, group := group, uid := uid, gid := gid }

/-- `resolveUser` with another initial value of `uid`. -/
def uidFrom (H : Host) (f : IdFields) (init : ℤ) : Except LoadError UInt32 :=
  resolveName H.getpwnam f.user "nobody" "Couldn't lookup uid of user" (didSetNumeric f.uid f.gid)
    (f.gid.getD (f.uid.getD init))

/-- `resolveGroup` with another initial value of `gid`. -/
def gidFrom (H : Host) (f : IdFields) (init : ℤ) : Except LoadError UInt32 :=
  resolveName H.getgrnam f.group "nogroup" "Couldn't lookup gid of group" (didSetNumeric f.uid f.gid) init

theorem resolveUser_eq (H : Host) (f : IdFields) : resolveUser H f.user f.uid f.gid = uidFrom H f (-1) := rfl

theorem resolveGroup_eq (H : Host) (f : IdFields) : resolveGroup H f.group f.uid f.gid = gidFrom H f (-1) := rfl

/-- An entry that is read has the four fields, and its ids are resolved from them. -/
theorem ids_of_read (h : readProgram H Y entry name path = .ok prog) :
    ∃ f, idFields Y entry = .ok f ∧ uidFrom H f (-1) = .ok prog.uid ∧ gidFrom H f (-1) = .ok prog.gid := by
  simp only [readProgram, bind_eq_ok] at h
  obtain ⟨type, -, args, -, caps, -, before, -, after, -, uid, huid, gid, hgid, user, huser, userId, hu,
    group, hgroup, groupId, hg, tty, -, env, -, ⟨whitelist, vars⟩, -, name, -, path, -, hprog⟩ := h
  cases hprog
  let f : IdFields := { user := user, group := group, uid := uid, gid := gid }
  have hf : idFields Y entry = .ok f := by
    simp only [idFields, huid, hgid, huser, hgroup]
    rfl
  exact ⟨f, hf, (resolveUser_eq H f).symm.trans hu, (resolveGroup_eq H f).symm.trans hg⟩

/-- A name is used if it is given, or no number is. -/
theorem used_iff {n : Option Text} {uid gid : Option ℤ} :
    (n.isSome || !didSetNumeric uid gid) = true ↔ n ≠ none ∨ (uid = none ∧ gid = none) := by
  cases n <;> cases uid <;> cases gid <;> simp [didSetNumeric]

/-! ### Names that are found -/

/-- The names an entry uses are those of users and groups. -/
structure NamesExist (H : Host) (f : IdFields) : Prop where
  user : ∀ n ∈ f.user, (H.getpwnam n).isSome
  group : ∀ n ∈ f.group, (H.getgrnam n).isSome
  nobody : f.user = none → f.uid = none → f.gid = none → (H.getpwnam "nobody".toList).isSome
  nogroup : f.group = none → f.uid = none → f.gid = none → (H.getgrnam "nogroup".toList).isSome

/-- Loading goes on, or ends with an exception. -/
def NoExit {α : Type} (x : Except LoadError α) : Prop := ∀ what, x ≠ .error (.exit what)

section

variable {α β : Type} {x : Except LoadError α} {f : α → Except LoadError β}

theorem noExit_ok (a : α) : NoExit (.ok a) := fun _ h => by cases h

theorem noExit_thrown (e : Exn) : NoExit (.error (.thrown e) : Except LoadError α) := fun _ h => by cases h

theorem NoExit.bind (hx : NoExit x) (hf : ∀ a, x = .ok a → NoExit (f a)) : NoExit (x >>= f) := by
  cases x with
  | error e => exact fun what h => hx what (congrArg Except.error (Except.error.inj h))
  | ok a => exact hf a rfl

theorem noExit_mapM {f : α → Except LoadError β} (hf : ∀ a, NoExit (f a)) : ∀ l : List α, NoExit (l.mapM f)
  | [] => noExit_ok _
  | a :: l => by
    rw [List.mapM_cons]
    exact (hf a).bind fun _ _ => (noExit_mapM hf l).bind fun _ _ => noExit_ok _

theorem noExit_foldlM {f : β → α → Except LoadError β} (hf : ∀ b a, NoExit (f b a)) :
    ∀ (l : List α) (b : β), NoExit (l.foldlM f b)
  | [], _ => noExit_ok _
  | a :: l, b => by
    rw [List.foldlM_cons]
    exact (hf b a).bind fun b' _ => noExit_foldlM hf l b'

end

/-- What yaml-cpp throws does not end scinit by `exit`. -/
theorem noExit_orThrown {α : Type} (x : Except String α) : NoExit (orThrown x) := by
  cases x with
  | ok a => exact noExit_ok a
  | error what => exact noExit_thrown _

theorem getAs_noExit {α : Type} (Y : YamlLib Node) (as : Node → Except String α) (node : Node) (key : String) :
    NoExit (Y.getAs as node key) := by
  refine (noExit_orThrown _).bind fun value _ => ?_
  cases value with
  | none => exact noExit_ok _
  | some value =>
    show NoExit (some <$> orThrown (as value))
    rw [← bind_pure_comp]
    exact (noExit_orThrown _).bind fun _ _ => noExit_ok _

theorem yamlNodeToStrList_noExit (Y : YamlLib Node) (root : Node) (nodeName : String) :
    NoExit (yamlNodeToStrList Y root nodeName) := by
  refine (noExit_orThrown _).bind fun value _ => ?_
  cases value with
  | none => exact noExit_ok _
  | some node => exact noExit_mapM (fun _ => noExit_orThrown _) _

theorem readEnv_noExit (Y : YamlLib Node) (program : Node) : NoExit (readEnv Y program) := by
  refine (noExit_orThrown _).bind fun value _ => ?_
  cases value with
  | none => exact noExit_ok _
  | some env =>
    refine noExit_foldlM (fun acc node => (noExit_orThrown _).bind fun scalar _ => ?_) _ _
    cases scalar with
    | true => exact (noExit_orThrown _).bind fun _ _ => noExit_ok _
    | false =>
      exact (noExit_orThrown _).bind fun _ _ => (noExit_orThrown _).bind fun _ _ =>
        (noExit_orThrown _).bind fun _ _ => noExit_ok _

/-- The name that is used is found. -/
theorem found_of_used {lookup : Text → Option UInt32} {n : Option Text} {fallback : String} {uid gid : Option ℤ}
    (hname : ∀ m ∈ n, (lookup m).isSome)
    (hnone : n = none → uid = none → gid = none → (lookup fallback.toList).isSome)
    (hused : (n.isSome || !didSetNumeric uid gid) = true) : (lookup (n.getD fallback.toList)).isSome := by
  cases n with
  | some m => exact hname m rfl
  | none =>
    obtain ⟨huid, hgid⟩ := (used_iff.mp hused).resolve_left (not_not.mpr rfl)
    exact hnone rfl huid hgid

theorem resolveName_noExit {lookup : Text → Option UInt32} {n : Option Text} {fallback what : String} {numeric : Bool}
    {number : ℤ} (h : (n.isSome || !numeric) = true → (lookup (n.getD fallback.toList)).isSome) :
    NoExit (resolveName lookup n fallback what numeric number) := by
  unfold resolveName
  split
  · rename_i hused
    obtain ⟨id, hid⟩ := Option.isSome_iff_exists.mp (h hused)
    rw [hid]
    exact noExit_ok _
  · exact noExit_ok _

/-- Where the names are found, reading an entry does not end scinit. -/
theorem readProgram_noExit {f : IdFields} (hf : idFields Y entry = .ok f) (hn : NamesExist H f) :
    NoExit (readProgram H Y entry name path) := by
  simp only [idFields, bind_eq_ok] at hf
  obtain ⟨uid, huid, gid, hgid, user, huser, group, hgroup, hf⟩ := hf
  cases hf
  have huser' : NoExit (resolveUser H user uid gid) := resolveName_noExit (found_of_used hn.user hn.nobody)
  have hgroup' : NoExit (resolveGroup H group uid gid) := resolveName_noExit (found_of_used hn.group hn.nogroup)
  have hstr := getAs_noExit Y Y.asString entry
  have hlist := yamlNodeToStrList_noExit Y entry
  have hbool := getAs_noExit Y Y.asBool entry
  unfold readProgram
  rw [huid, hgid, huser, hgroup]
  -- one call after the other
  refine (hstr "type").bind fun _ _ => (hlist "args").bind fun _ _ => (hlist "capabilities").bind fun _ _ =>
    (hlist "before").bind fun _ _ => (hlist "after").bind fun _ _ => ?_
  refine huser'.bind fun _ _ => hgroup'.bind fun _ _ => ?_
  refine (hbool "pty").bind fun _ _ => (hbool "default_env").bind fun _ _ => ?_
  refine (readEnv_noExit Y entry).bind fun env _ => ?_
  exact (noExit_orThrown _).bind fun _ _ => (noExit_orThrown _).bind fun _ _ => noExit_ok _

/-! ### The right ids -/

/-- The id is right: a name that is given decides it, else the number does, and
if none of the four fields is given it is that of `fallback`; what the other
fields say is nothing to it, and it is not left at the initial value. -/
structure IdRight (lookup : Text → Option UInt32) (fallback : String) (named : IdFields → Option Text)
    (numbered : IdFields → Option ℤ) (resolve : IdFields → ℤ → Except LoadError UInt32) (f : IdFields)
    (id : UInt32) : Prop where
  name : ∀ n ∈ named f, lookup n = some id
  number : named f = none → ∀ n ∈ numbered f, id = UInt32.ofInt n
  neither : f.given = (false, false, false, false) → lookup fallback.toList = some id
  alone : ∀ f' : IdFields, f'.given = f.given → named f' = named f → numbered f' = numbered f →
    resolve f' (-1) = .ok id
  set : ∃ init, resolve f init ≠ .ok (UInt32.ofInt init)

/-- The uid of an entry with the fields `f`. -/
def UidRight (H : Host) : IdFields → UInt32 → Prop :=
  IdRight H.getpwnam "nobody" IdFields.user IdFields.uid (uidFrom H)

/-- Its gid. -/
def GidRight (H : Host) : IdFields → UInt32 → Prop :=
  IdRight H.getgrnam "nogroup" IdFields.group IdFields.gid (gidFrom H)

theorem exists_ofInt_ne (id : UInt32) : ∃ n : ℤ, UInt32.ofInt n ≠ id := by
  by_cases h : id = 0
  · exact ⟨1, fun he => absurd (he.trans h) (by decide)⟩
  · exact ⟨0, fun he => h (he.symm.trans (by decide))⟩

section

variable {lookup : Text → Option UInt32} {n : Option Text} {fallback what : String} {numeric : Bool} {number : ℤ}

/-- A name that is used decides the id. -/
theorem resolveName_of_used (h : (n.isSome || !numeric) = true) (number' : ℤ) (numeric' : Bool)
    (h' : (n.isSome || !numeric') = true) : resolveName lookup n fallback what numeric' number' =
      resolveName lookup n fallback what numeric number := by
  unfold resolveName
  rw [if_pos h, if_pos h']

theorem lookup_of_used {id : UInt32} (h : (n.isSome || !numeric) = true)
    (hok : resolveName lookup n fallback what numeric number = .ok id) :
    lookup (n.getD fallback.toList) = some id := by
  unfold resolveName at hok
  rw [if_pos h] at hok
  cases hl : lookup (n.getD fallback.toList) with
  | none =>
    rw [hl] at hok
    cases hok
  | some id' =>
    rw [hl] at hok
    exact congrArg some (Except.ok.inj hok)

theorem resolveName_of_number (h : (n.isSome || !numeric) = false) :
    resolveName lookup n fallback what numeric number = .ok (UInt32.ofInt number) := by
  unfold resolveName
  rw [h]
  rfl

end

variable {f f' : IdFields} {id : UInt32}

/-- With a user, or without a `gid`, nothing but the user and `uid` decides the uid. -/
theorem uidFrom_congr (hown : f.user ≠ none ∨ f.gid = none) (hgiven : f'.given = f.given)
    (huser : f'.user = f.user) (huid : f'.uid = f.uid) (init : ℤ) : uidFrom H f' init = uidFrom H f (-1) := by
  simp only [IdFields.given, Prod.mk.injEq] at hgiven
  have hnumeric : didSetNumeric f'.uid f'.gid = didSetNumeric f.uid f.gid := by
    simp only [didSetNumeric, hgiven.2.2.1, hgiven.2.2.2]
  unfold uidFrom
  rw [huser, hnumeric]
  by_cases hused : (f.user.isSome || !didSetNumeric f.uid f.gid) = true
  · exact resolveName_of_used hused _ _ hused
  · -- the number is that of `uid`
    have hnumber := Bool.not_eq_true _ ▸ hused
    rw [resolveName_of_number hnumber, resolveName_of_number hnumber]
    rw [used_iff] at hused
    push Not at hused
    have hgid : f.gid = none := hown.resolve_left (not_not.mpr hused.1)
    have hgid' : f'.gid = none := by simpa [hgid] using hgiven.2.2.2
    have hgiven' : f.uid ≠ none := fun hnone => hused.2 hnone hgid
    obtain ⟨n, hn⟩ := Option.ne_none_iff_exists'.mp hgiven'
    rw [hgid, hgid', huid, hn]
    rfl

/-- With a group, or without a number, nothing but the group decides the gid. -/
theorem gidFrom_congr (hown : f.group ≠ none ∨ (f.uid = none ∧ f.gid = none)) (hgiven : f'.given = f.given)
    (hgroup : f'.group = f.group) (init : ℤ) : gidFrom H f' init = gidFrom H f (-1) := by
  simp only [IdFields.given, Prod.mk.injEq] at hgiven
  have hused := used_iff.mpr hown
  have hnumeric : didSetNumeric f'.uid f'.gid = didSetNumeric f.uid f.gid := by
    simp only [didSetNumeric, hgiven.2.2.1, hgiven.2.2.2]
  unfold gidFrom
  rw [hgroup, hnumeric]
  exact resolveName_of_used hused _ _ hused

/-- **The uid is right** if and only if the entry names its user or has no `gid`. -/
theorem uid_right_iff (h : uidFrom H f (-1) = .ok id) : UidRight H f id ↔ f.user ≠ none ∨ f.gid = none := by
  constructor
  · intro hr
    by_contra hown
    push Not at hown
    obtain ⟨huser, hgid⟩ := hown
    -- another number in `gid` is another uid
    obtain ⟨n, hn⟩ := exists_ofInt_ne id
    have hgiven : { f with gid := some n }.given = f.given := by
      simp only [IdFields.given, Option.isSome_iff_ne_none.mpr hgid, Option.isSome_some]
    have hother := hr.alone { f with gid := some n } hgiven rfl rfl
    unfold uidFrom at hother
    rw [resolveName_of_number (by simp [huser, didSetNumeric])] at hother
    exact hn (Except.ok.inj hother)
  · intro hown
    obtain ⟨init, hinit⟩ := exists_ofInt_ne id
    refine ⟨fun n hn => ?_, fun hnone n hn => ?_, fun hgiven => ?_, fun f' hgiven huser huid => ?_, init, ?_⟩
    · have hgiven : f.user ≠ none := Option.ne_none_iff_exists'.mpr ⟨n, hn⟩
      have hlookup := lookup_of_used (used_iff.mpr (Or.inl hgiven)) h
      rwa [Option.mem_def.mp hn] at hlookup
    · have hgid := hown.resolve_left (not_not.mpr hnone)
      unfold uidFrom at h
      rw [hnone, hgid, Option.mem_def.mp hn] at h
      exact (Except.ok.inj h).symm
    · simp only [IdFields.given, Prod.mk.injEq, Option.isSome_eq_false_iff, Option.isNone_iff_eq_none] at hgiven
      obtain ⟨huser, -, huid, hgid⟩ := hgiven
      have hlookup := lookup_of_used (used_iff.mpr (Or.inr ⟨huid, hgid⟩)) h
      rwa [huser] at hlookup
    · rw [uidFrom_congr hown hgiven huser huid, h]
    · rw [uidFrom_congr hown rfl rfl rfl, h]
      exact fun he => hinit (Except.ok.inj he).symm

/-- **The gid is right** if and only if the entry names its group or has no number. -/
theorem gid_right_iff (h : gidFrom H f (-1) = .ok id) :
    GidRight H f id ↔ f.group ≠ none ∨ (f.uid = none ∧ f.gid = none) := by
  constructor
  · intro hr
    by_contra hown
    -- whatever the initial value is, it stays
    obtain ⟨init, hinit⟩ := hr.set
    refine hinit ?_
    unfold gidFrom
    apply resolveName_of_number
    rw [← Bool.not_eq_true, used_iff]
    exact hown
  · intro hown
    have hlookup := lookup_of_used (used_iff.mpr hown) h
    obtain ⟨init, hinit⟩ := exists_ofInt_ne id
    refine ⟨fun n hn => ?_, fun hnone n hn => ?_, fun hgiven => ?_, fun f' hgiven hgroup _ => ?_, init, ?_⟩
    · rwa [Option.mem_def.mp hn] at hlookup
    · have hgid := (hown.resolve_left (not_not.mpr hnone)).2
      rw [hgid] at hn
      cases hn
    · simp only [IdFields.given, Prod.mk.injEq, Option.isSome_eq_false_iff, Option.isNone_iff_eq_none] at hgiven
      rwa [hgiven.2.1] at hlookup
    · rw [gidFrom_congr hown hgiven hgroup, h]
    · rw [gidFrom_congr hown rfl rfl, h]
      exact fun he => hinit (Except.ok.inj he).symm

/-- **Users and groups.** An entry whose names exist does not end scinit, and
the process of any entry that is read has both ids right if and only if the
entry names its user or has no `gid`, and names its group or has no number. -/
theorem ids_right_iff (H : Host) (Y : YamlLib Node) (entry name path : Node) :
    (∀ f, idFields Y entry = .ok f → NamesExist H f → NoExit (readProgram H Y entry name path)) ∧
    ∀ prog, readProgram H Y entry name path = .ok prog → ∃ f, idFields Y entry = .ok f ∧ ∀ graphId,
      (UidRight H f (ChildProcess.new H prog graphId).uid ∧ GidRight H f (ChildProcess.new H prog graphId).gid ↔
        (f.user ≠ none ∨ f.gid = none) ∧ (f.group ≠ none ∨ (f.uid = none ∧ f.gid = none))) := by
  refine ⟨fun f hf hn => readProgram_noExit hf hn, fun prog h => ?_⟩
  obtain ⟨f, hf, hu, hg⟩ := ids_of_read h
  exact ⟨f, hf, fun _ => and_congr (uid_right_iff hu) (gid_right_iff hg)⟩

/-- A host that reads one number. -/
def oneNumber : YamlLib Yaml :=
  Yaml.lib (fun _ => .error "bad file") (fun text => if text = "65534".toList then some 65534 else none) fun _ => none

/-- An entry with a `uid` and a `gid`. -/
def numericEntry : Yaml := .map [(.scalar "uid".toList, .scalar "65534".toList),
  (.scalar "gid".toList, .scalar "65534".toList)]

/-- Its fields. -/
def numericFields : IdFields := { uid := some 65534, gid := some 65534 }

theorem numericEntry_fields : idFields oneNumber numericEntry = .ok numericFields := by rfl

theorem numericFields_names (H : Host) : NamesExist H numericFields where
  user := fun _ h => by cases h
  group := fun _ h => by cases h
  nobody := fun _ h => by cases h
  nogroup := fun _ h => by cases h

theorem numericEntry_read : ∃ prog, readProgram bareHost oneNumber numericEntry (.scalar ['a']) (.scalar ['a']) =
    .ok prog ∧ prog.gid = 4294967295 := ⟨_, rfl, rfl⟩

theorem ids_right_iff_numericEntry :
    NoExit (readProgram bareHost oneNumber numericEntry (.scalar ['a']) (.scalar ['a'])) ∧
    ∃ prog, readProgram bareHost oneNumber numericEntry (.scalar ['a']) (.scalar ['a']) = .ok prog ∧
      ¬ (UidRight bareHost numericFields prog.uid ∧ GidRight bareHost numericFields prog.gid) := by
  obtain ⟨hexit, hids⟩ := ids_right_iff bareHost oneNumber numericEntry (.scalar ['a']) (.scalar ['a'])
  obtain ⟨prog, hprog, -⟩ := numericEntry_read
  refine ⟨hexit numericFields numericEntry_fields (numericFields_names bareHost), prog, hprog, fun hright => ?_⟩
  obtain ⟨f, hf, hiff⟩ := hids prog hprog
  have hsame : f = numericFields := Except.ok.inj (hf.symm.trans numericEntry_fields)
  subst hsame
  have hown := ((hiff 0).mp hright).1
  exact hown.elim (fun h => h rfl) (fun h => by cases h)

/-- The number in `gid` is not the gid. -/
theorem gid_left : ¬ ∀ (H : Host) (Y : YamlLib Yaml) (entry name path : Yaml) (f : IdFields) (prog : Program),
    idFields Y entry = .ok f → NamesExist H f → readProgram H Y entry name path = .ok prog → ∀ graphId,
      UidRight H f (ChildProcess.new H prog graphId).uid ∧ GidRight H f (ChildProcess.new H prog graphId).gid := by
  intro hall
  obtain ⟨prog, hprog, hgid⟩ := numericEntry_read
  have hright := (hall bareHost oneNumber numericEntry _ _ numericFields prog numericEntry_fields
    (numericFields_names bareHost) hprog 0).2
  have hnumber := hright.number rfl 65534 rfl
  exact absurd (hgid.symm.trans hnumber) (by decide)

end Scinit
