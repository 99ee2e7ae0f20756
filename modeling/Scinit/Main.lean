/-
# The program

`src/main.cpp`: the command line leads to a file or to the files of a directory,
and these to what the event loop starts from. A directory is listed in no order
that could be relied on. Another order gives the same processes under other
ids, and who waits for whom is the same (`main_listing`). Whether a process waits
at all may differ: only a declaration up to its own place makes it wait. Where
each process that another puts itself before also declares to come after one
(`OrderFree`), nothing differs, and the processes come to the same ends whatever
the order was (`outcome_listing`).

What is not here is `parse_command_line`, whose result is a parameter, and the
level of the log.

Key definitions: `handleCommandlineInvocation`, `main`, `Renames`, `OrderFree`.
Key theorems: `load_isOk`, `main_listing`, `outcome_listing`.
-/
import Scinit.Loading
import Scinit.Outcome

namespace Scinit

open Transition

/-! ### The code -/

/-- The options, as far as they are used. -/
structure Options where
  help : Bool
  config : Text

/-- What is used of `boost::filesystem`. -/
structure FileSystem where
  pathExists : Text → Bool
  isDirectory : Text → Bool
  isRegular : Text → Bool
  directoryIterator : Text → List Text

/-- How the program ends before `main` returns: by `exit`, or by an exception. -/
inductive Aborted
  | exit (status : ℤ)
  | thrown (e : Exn)

/-- What `main` comes to. -/
inductive MainEnd
  | aborted (a : Aborted)
  | returned (rc : ℤ)
  | eventloop (s : Sys)

def LoadError.aborted : LoadError → Aborted
  | .thrown e => .thrown e
  | .exit _ => .exit (-1)

variable {Node : Type}

/-- The constructor from a path. -/
def Config.ofPath (H : Host) (Y : YamlLib Node) (F : FileSystem) (path : Text) : Except LoadError Config :=
  if F.isDirectory path then
    .error (.thrown (.configParse "This constructor is for single files only!"))
  else Config.loadFile H Y {} path

/-- `handle_commandline_invocation`: `none` is the null pointer. -/
def handleCommandlineInvocation (H : Host) (Y : YamlLib Node) (F : FileSystem) (options : Options) :
    Except Aborted (Option Config) :=
  if options.help then .error (.exit 0)
  else if !F.pathExists options.config then .ok none
  else if F.isDirectory options.config then
    let files := (F.directoryIterator options.config).filter F.isRegular
    ((Config.load H Y files).map some).mapError LoadError.aborted
  else ((Config.ofPath H Y F options.config).map some).mapError LoadError.aborted

def main (H : Host) (Y : YamlLib Node) (F : FileSystem) (options : Options) : MainEnd :=
  match handleCommandlineInvocation H Y F options with
  | .error a => .aborted a
  | .ok none => .returned (-1)
  | .ok (some conf) => .eventloop conf.start

variable {H : Host} {Y : YamlLib Node} {F F' : FileSystem} {options : Options} {files files' : List Text}
  {conf conf' : Config} {progs progs' : List Program} {s s' : Sys}
  {tr : List (Sys × Label)}

/-! ### Loading in another order -/

/-- A loop whose turns do not depend on what the turns before have made gets to its end if each turn does. -/
theorem foldlM_isOk {α β ε : Type} {f : β → α → Except ε β} (hf : ∀ b b' a, (f b a).isOk = (f b' a).isOk) (b₀ : β) :
    ∀ (xs : List α) (b : β), (xs.foldlM f b).isOk = xs.all fun a => (f b₀ a).isOk
  | [], _ => rfl
  | a :: xs, b => by
    rw [List.foldlM_cons, List.all_cons, ← hf b b₀]
    cases h : f b a with
    | error e => rfl
    | ok b' =>
      rw [show (Except.ok b' >>= fun b => xs.foldlM f b : Except ε β) = xs.foldlM f b' from rfl,
        foldlM_isOk hf b₀ xs b']
      rfl

theorem parseProgram_isOk (conf conf' : Config) (program : Node) :
    (conf.parseProgram H Y program).isOk = (conf'.parseProgram H Y program).isOk := by
  unfold Config.parseProgram
  cases orThrown (Y.get program "name") with
  | error e => rfl
  | ok name =>
    cases name with
    | none => rfl
    | some name =>
      simp only [bind, Except.bind]
      cases orThrown (Y.get program "path") with
      | error e => rfl
      | ok path =>
        cases path with
        | none => rfl
        | some path =>
          dsimp only
          cases readProgram H Y program name path <;> rfl

theorem loadFile_isOk (conf conf' : Config) (file : Text) :
    (Config.loadFile H Y conf file).isOk = (Config.loadFile H Y conf' file).isOk := by
  unfold Config.loadFile
  cases orThrown (Y.loadFile file) with
  | error e => rfl
  | ok root =>
    simp only [bind, Except.bind]
    cases orThrown (Y.get root "programs") with
    | error e => rfl
    | ok programs =>
      cases programs with
      | none => rfl
      | some programs =>
        exact (foldlM_isOk parseProgram_isOk {} (Y.items programs) conf).trans
          (foldlM_isOk parseProgram_isOk {} (Y.items programs) conf').symm

/-- Loading succeeds if each file alone can be loaded. -/
theorem load_isOk (H : Host) (Y : YamlLib Node) (files : List Text) :
    (Config.load H Y files).isOk = files.all fun file => (Config.loadFile H Y {} file).isOk :=
  foldlM_isOk loadFile_isOk {} files {}

/-- The files in another order give the same entries in another order. -/
theorem load_perm (hF : files.Perm files') (h : Config.load H Y files = .ok conf) : ∃ progs progs',
    progs.Perm progs' ∧ conf = Config.ofPrograms H progs ∧
      Config.load H Y files' = .ok (Config.ofPrograms H progs') := by
  obtain ⟨progs, hr, rfl⟩ := load_eq h
  obtain ⟨conf', h'⟩ : ∃ conf', Config.load H Y files' = .ok conf' := by
    have hok : (Config.load H Y files').isOk = true := by
      rw [load_isOk, ← hF.all_eq, ← load_isOk, h]
      rfl
    cases hc : Config.load H Y files' with
    | error e =>
      rw [hc] at hok
      cases hok
    | ok conf' => exact ⟨conf', rfl⟩
  obtain ⟨progs', hr', rfl⟩ := load_eq h'
  have hunique : Relator.RightUnique (Reads H Y) := fun entry g g' hg hg' =>
    Except.ok.inj (hg.read.symm.trans hg'.read)
  exact ⟨progs, progs', List.rel_perm_imp hunique hr hr' (hF.flatMap_right _), rfl, h'⟩

/-! ### The ids in another order -/

/-- The entries of one list are those of the other, in other places. -/
def Renames (progs progs' : List Program) (e : Fin progs.length ≃ Fin progs'.length) : Prop :=
  ∀ i, progs'[e i] = progs[i]

theorem exists_renames (h : progs.Perm progs') : ∃ e, Renames progs progs' e :=
  ⟨⟨h.idxBij, h.symm.idxBij, h.idxBij_rightInverse_idxBij_symm, h.idxBij_leftInverse_idxBij_symm⟩,
    h.getElem_idxBij_eq_getElem⟩

/-- Whoever another entry puts itself before declares to come after one. -/
def OrderFree (progs : List Program) : Prop :=
  ∀ g ∈ progs, ∀ g' ∈ progs, g.name ∈ g'.before → ∃ g'' ∈ progs, g''.name ∈ g.after

/-- The process waits for the other. -/
def Waits (s : Sys) (r q : Ref) : Prop := ∃ p st, s.objs[r]? = some p ∧ (q, st) ∈ p.conditions

theorem boot_object (H : Host) (i : Fin progs.length) : ∃ p, (boot H progs).objs[i.val]? = some p :=
  ⟨_, List.getElem?_eq_getElem (by rw [boot_length]; exact i.isLt)⟩

theorem boot_waits_iff (H : Host) (i j : Fin progs.length) :
    Waits (boot H progs) i j ↔ progs[i].WaitsFor progs[j] := by
  obtain ⟨p, hp⟩ := boot_object H i
  have hi : progs[i.val]? = some progs[i] := List.getElem?_eq_getElem i.isLt
  have hj : progs[j.val]? = some progs[j] := List.getElem?_eq_getElem j.isLt
  constructor
  · rintro ⟨p', st, hp', hc⟩
    rw [hp, Option.some.injEq] at hp'
    subst hp'
    exact ((boot_condition_iff hp hi hj).mp hc).1
  · intro hw
    exact ⟨p, _, hp, (boot_condition_iff hp hi hj).mpr ⟨hw, rfl⟩⟩

theorem Renames.waits_iff {e : Fin progs.length ≃ Fin progs'.length} (he : Renames progs progs' e)
    (i j : Fin progs.length) : Waits (boot H progs) i j ↔ Waits (boot H progs') (e i) (e j) := by
  rw [boot_waits_iff, boot_waits_iff, he i, he j]

theorem Renames.symm {e : Fin progs.length ≃ Fin progs'.length} (he : Renames progs progs' e) :
    Renames progs' progs e.symm := fun k => by
  have hk := (he (e.symm k)).symm
  simpa only [Equiv.apply_symm_apply] using hk

theorem Renames.mem {e : Fin progs.length ≃ Fin progs'.length} (he : Renames progs progs' e) {g : Program}
    (hg : g ∈ progs) : g ∈ progs' := by
  obtain ⟨n, hn, rfl⟩ := List.mem_iff_getElem.mp hg
  rw [← show progs'[e ⟨n, hn⟩] = progs[n] from he ⟨n, hn⟩]
  exact List.getElem_mem _

theorem Renames.mem_iff {e : Fin progs.length ≃ Fin progs'.length} (he : Renames progs progs' e) {g : Program} :
    g ∈ progs' ↔ g ∈ progs := ⟨he.symm.mem, he.mem⟩

theorem Renames.orderFree {e : Fin progs.length ≃ Fin progs'.length} (he : Renames progs progs' e)
    (hfree : OrderFree progs) : OrderFree progs' := fun g hg g' hg' hname => by
  obtain ⟨g'', hg'', h⟩ := hfree g (he.mem_iff.mp hg) g' (he.mem_iff.mp hg') hname
  exact ⟨g'', he.mem_iff.mpr hg'', h⟩

/-- Where the order does not matter, a process waits if it declares so itself. -/
theorem OrderFree.declared_iff (hfree : OrderFree progs) (i : Fin progs.length) :
    (∃ (q : Ref) (g' : Program), progs[q]? = some g' ∧
      (g'.name ∈ progs[i].after ∨ (q ≤ i ∧ progs[i].name ∈ g'.before))) ↔ ∃ g' ∈ progs, g'.name ∈ progs[i].after := by
  constructor
  · rintro ⟨q, g', hg', ha | ⟨-, hb⟩⟩
    · exact ⟨g', List.mem_of_getElem? hg', ha⟩
    · exact hfree _ (List.getElem_mem _) g' (List.mem_of_getElem? hg') hb
  · rintro ⟨g', hg', ha⟩
    obtain ⟨q, hq⟩ := List.mem_iff_getElem?.mp hg'
    exact ⟨q, g', hq, Or.inl ha⟩

theorem OrderFree.awaits_iff (hfree : OrderFree progs) (i j : Fin progs.length) :
    Awaits progs i j ↔ progs[i].WaitsFor progs[j] := by
  constructor
  · rintro ⟨g, g', hg, hg', hw, -⟩
    obtain rfl := Option.some.inj ((List.getElem?_eq_getElem i.isLt).symm.trans hg)
    obtain rfl := Option.some.inj ((List.getElem?_eq_getElem j.isLt).symm.trans hg')
    exact hw
  · intro hw
    refine ⟨_, _, List.getElem?_eq_getElem i.isLt, List.getElem?_eq_getElem j.isLt, hw, ?_⟩
    refine (hfree.declared_iff i).mpr ?_
    rcases hw with ha | hb
    · exact ⟨_, List.getElem_mem _, ha⟩
    · exact hfree _ (List.getElem_mem _) _ (List.getElem_mem _) hb

/-- A process is ready or blocked whatever the order was. -/
theorem Renames.stateOf_boot {e : Fin progs.length ≃ Fin progs'.length} (he : Renames progs progs' e)
    (hfree : OrderFree progs) (i : Fin progs.length) :
    (boot H progs).stateOf i = (boot H progs').stateOf (e i) := by
  obtain ⟨p, hp⟩ := boot_object H i
  obtain ⟨p', hp'⟩ := boot_object H (e i)
  have hready : p.state = .ready ↔ p'.state = .ready := by
    rw [boot_ready_iff hp (List.getElem?_eq_getElem i.isLt), boot_ready_iff hp' (List.getElem?_eq_getElem (e i).isLt)]
    refine not_congr ((hfree.declared_iff i).trans (Iff.trans ?_ ((he.orderFree hfree).declared_iff (e i)).symm))
    simp only [he.mem_iff, he i]
  rw [Sys.stateOf_eq hp, Sys.stateOf_eq hp']
  rcases (boot_wellFormed H progs).state _ p hp with h | h
  · rcases (boot_wellFormed H progs').state _ p' hp' with h' | h'
    · rw [h, h']
    · rw [hready.mpr h'] at h
      cases h
  · rw [h, hready.mp h]

/-! ### From the command line on -/

/-- The same files, but the directories are listed in another order. -/
structure Relisted (F F' : FileSystem) : Prop where
  pathExists : F'.pathExists = F.pathExists
  isDirectory : F'.isDirectory = F.isDirectory
  isRegular : F'.isRegular = F.isRegular
  listed : ∀ path, (F.directoryIterator path).Perm (F'.directoryIterator path)

/-- The files that the configuration is read from. -/
def configFiles (F : FileSystem) (options : Options) : List Text :=
  if F.isDirectory options.config then (F.directoryIterator options.config).filter F.isRegular else [options.config]

theorem map_mapError_eq_ok {α β ε ε' : Type} {x : Except ε α} {f : α → β} {m : ε → ε'} {b : β} :
    (x.map f).mapError m = .ok b ↔ ∃ a, x = .ok a ∧ f a = b := by
  cases x with
  | error e => simp [Except.map, Except.mapError]
  | ok a => simp [Except.map, Except.mapError]

/-- A file alone is loaded like a list of one file. -/
theorem ofPath_eq (h : F.isDirectory options.config = false) :
    Config.ofPath H Y F options.config = Config.load H Y [options.config] := by
  rw [Config.ofPath, if_neg (by rw [h]; decide), Config.load, List.foldlM_cons]
  cases Config.loadFile H Y {} options.config <;> rfl

theorem invocation_eq_ok : handleCommandlineInvocation H Y F options = .ok (some conf) ↔ options.help = false ∧
    F.pathExists options.config = true ∧ Config.load H Y (configFiles F options) = .ok conf := by
  unfold handleCommandlineInvocation configFiles
  cases options.help with
  | true => simp
  | false =>
    cases F.pathExists options.config with
    | false => simp
    | true =>
      cases hdir : F.isDirectory options.config with
      | true => simp [map_mapError_eq_ok]
      | false => simp [map_mapError_eq_ok, ofPath_eq hdir]

/-- `main` enters the event loop with what it has loaded. -/
theorem main_eq_eventloop : main H Y F options = .eventloop s ↔ options.help = false ∧
    F.pathExists options.config = true ∧ ∃ conf, Config.load H Y (configFiles F options) = .ok conf ∧
      s = conf.start := by
  have hend : main H Y F options = .eventloop s ↔
      ∃ conf, handleCommandlineInvocation H Y F options = .ok (some conf) ∧ s = conf.start := by
    unfold main
    cases handleCommandlineInvocation H Y F options with
    | error a => simp
    | ok conf => cases conf <;> simp [eq_comm]
  rw [hend]
  simp only [invocation_eq_ok]
  tauto

/-- **The order of a directory** only renames the processes: who waits for whom is the same,
and who waits at all is too where each process that another puts itself before is told
by its own entry to come after one. -/
theorem main_listing (hF : Relisted F F') (h : main H Y F options = .eventloop s) :
    ∃ progs progs', ∃ e : Fin progs.length ≃ Fin progs'.length, s = boot H progs ∧
      main H Y F' options = .eventloop (boot H progs') ∧ Renames progs progs' e ∧
      (∀ i j : Fin progs.length, Waits s i j ↔ Waits (boot H progs') (e i) (e j)) ∧
      (OrderFree progs → ∀ i : Fin progs.length, s.stateOf i = (boot H progs').stateOf (e i)) := by
  obtain ⟨hhelp, hthere, conf, hload, rfl⟩ := main_eq_eventloop.mp h
  have hfiles : (configFiles F options).Perm (configFiles F' options) := by
    unfold configFiles
    rw [hF.isDirectory, hF.isRegular]
    split
    · exact (hF.listed _).filter _
    · exact .refl _
  obtain ⟨progs, progs', hperm, rfl, hload'⟩ := load_perm hfiles hload
  obtain ⟨e, he⟩ := exists_renames hperm
  refine ⟨progs, progs', e, rfl, main_eq_eventloop.mpr ⟨hhelp, ?_, _, hload', rfl⟩, he, he.waits_iff, fun hfree i =>
    he.stateOf_boot hfree i⟩
  rw [hF.pathExists, hthere]

/-- An entry of a file, for user 0. -/
def fileEntry (name : String) (after : List Yaml) : Yaml :=
  .map [(.scalar "name".toList, .scalar name.toList), (.scalar "path".toList, .scalar name.toList),
    (.scalar "uid".toList, .scalar "0".toList), (.scalar "after".toList, .sequence after)]

/-- The file `y` has an entry `b`, which comes after the `a` of any other file. -/
def twoFiles : YamlLib Yaml :=
  Yaml.lib (fun file => .ok (.map [(.scalar "programs".toList, .sequence
    [if file = ['y'] then fileEntry "b" [.scalar ['a']] else fileEntry "a" []])]))
    (fun text => if text = "0".toList then some 0 else none) fun _ => none

/-- A directory of files. -/
def directoryOf (files : List Text) : FileSystem where
  pathExists := fun _ => true
  isDirectory := fun _ => true
  isRegular := fun _ => true
  directoryIterator := fun _ => files

theorem relisted_twoFiles : Relisted (directoryOf [['x'], ['y']]) (directoryOf [['y'], ['x']]) :=
  ⟨rfl, rfl, rfl, fun _ => .swap _ _ _⟩

theorem main_listing_twoFiles : ∃ progs' : List Program,
    main bareHost twoFiles (directoryOf [['y'], ['x']]) ⟨false, "config".toList⟩ =
      .eventloop (boot bareHost progs') := by
  obtain ⟨s, hs⟩ : ∃ s, main bareHost twoFiles (directoryOf [['x'], ['y']]) ⟨false, "config".toList⟩ =
      .eventloop s := ⟨_, rfl⟩
  obtain ⟨-, progs', -, -, hmain, -⟩ := main_listing relisted_twoFiles hs
  exact ⟨progs', hmain⟩

/-! ### To the end -/

/-- Whether the program of a place exits with 0, if it is for its entry to say. -/
def verdictOf (progs : List Program) (v : Program → Bool) (r : Ref) : Bool := progs[r]?.any v

theorem verdictOf_get (v : Program → Bool) (i : Fin progs.length) : verdictOf progs v i = v progs[i] := by
  rw [verdictOf, List.getElem?_eq_getElem i.isLt]
  rfl

/-- A run that is left to itself: it returns, nobody asked for it, no attempt threw, and each
program exits as its entry says. -/
structure Completed (H : Host) (progs : List Program) (v : Program → Bool) (tr : List (Sys × Label)) (s : Sys) :
    Prop where
  run : Runs H progs tr s
  returned : s.pc = .returned 0
  unasked : s.handler.shouldQuit = false
  threwNothing : ∀ e ∈ tr, throwOf H e.1 e.2 = none
  exits : ExitsBy (verdictOf progs v) tr

/-- What gets to run gets to run under the other ids. -/
theorem Renames.getsToRun {e : Fin progs.length ≃ Fin progs'.length} (he : Renames progs progs' e)
    (hfree : OrderFree progs) {v : Program → Bool} {r : Ref} (h : GetsToRun progs (verdictOf progs v) r) :
    ∀ hr : r < progs.length, GetsToRun progs' (verdictOf progs' v) (e ⟨r, hr⟩) := by
  have hback : ∀ (i : Fin progs.length) (q' : Ref), Awaits progs' (e i) q' →
      ∃ j : Fin progs.length, q' = (e j).val ∧ Awaits progs i j := by
    intro i q' hq'
    obtain ⟨_, _, -, hq, -⟩ := id hq'
    obtain ⟨j, hj⟩ : ∃ j, e j = ⟨q', (List.getElem?_eq_some_iff.mp hq).1⟩ := ⟨e.symm _, e.apply_symm_apply _⟩
    have hval : q' = (e j).val := (congrArg Fin.val hj).symm
    refine ⟨j, hval, (hfree.awaits_iff i j).mpr ?_⟩
    rw [hval, (he.orderFree hfree).awaits_iff, he i, he j] at hq'
    exact hq'
  induction h with
  | @mk r hr _ hgood ih =>
    intro hr'
    refine .mk (e ⟨r, hr'⟩).isLt (fun q' hq' => ?_) fun q' hq' => ?_
    · obtain ⟨j, rfl, hj⟩ := hback ⟨r, hr'⟩ q' hq'
      exact ih j hj j.isLt
    · obtain ⟨j, rfl, hj⟩ := hback ⟨r, hr'⟩ q' hq'
      have hv := hgood j hj
      rw [verdictOf_get] at hv ⊢
      rwa [he j]

/-- **The outcome under any order.** Two runs of a configuration whose directory was listed
in two orders bring each entry to the same end, where the order does not matter for
who waits, and oneshot programs declare the dependencies. -/
theorem outcome_listing {e : Fin progs.length ≃ Fin progs'.length} (he : Renames progs progs' e)
    (hfree : OrderFree progs) (hkind : ∀ g ∈ progs, (g.before = [] ∧ g.after = []) ∨ g.kind = .oneshot)
    {v : Program → Bool} {tr' : List (Sys × Label)} (h : Completed H progs v tr s)
    (h' : Completed H progs' v tr' s') (i : Fin progs.length) : s.stateOf i = s'.stateOf (e i) := by
  have hkind' : ∀ g ∈ progs', (g.before = [] ∧ g.after = []) ∨ g.kind = .oneshot := fun g hg =>
    hkind g (he.mem_iff.mp hg)
  classical
  have hruns : GetsToRun progs (verdictOf progs v) i ↔ GetsToRun progs' (verdictOf progs' v) (e i) := by
    refine ⟨fun hrun => he.getsToRun hfree hrun i.isLt, fun hrun => ?_⟩
    have hback := he.symm.getsToRun (he.orderFree hfree) hrun (e i).isLt
    simpa only [Fin.eta, Equiv.symm_apply_apply] using hback
  rw [state_of_settled h.run (done_of_oneshot hkind) (settled_of_returned h.run h.returned h.unasked h.threwNothing)
      h.exits i.isLt,
    state_of_settled h'.run (done_of_oneshot hkind')
      (settled_of_returned h'.run h'.returned h'.unasked h'.threwNothing) h'.exits (e i).isLt,
    verdictOf_get, verdictOf_get, he i]
  exact congrArg some (if_congr hruns rfl rfl)

/-! ### A directory listed in two orders -/

/-- The entries of `chainAB` the other way round. -/
def chainBA : List Program := [plain 'b' "oneshot" [] ['a'], plain 'a' "oneshot" [] []]

/-- The same course of events as `bDone` after `aDone`. -/
def aThenB : List Label :=
  [.setup setupOk, .notify, .start (startOk 10 100), .start (startOk 10 100), .started,
    .notify, .start (startOk 20 101), .start (startOk 20 101), .started,
    .epollWait [], .act (.exit 100 0), .reap 100 0, .reaped, .exitTest,
    .notify, .start (startOk 20 101), .start (startOk 30 102), .started,
    .notify, .start (startOk 30 102), .start (startOk 30 102), .started,
    .epollWait [], .act (.exit 101 0), .reap 101 0, .reaped, .exitTest,
    .notify, .start (startOk 30 102), .start (startOk 30 102), .started]

theorem aThenB_possible : (exec (step bareHost) (boot bareHost chainBA) aThenB).isSome = true := by decide

/-- Where all programs exit with 0. -/
theorem exitsBy_ok (h : Runs H progs tr s) (hok : ∀ e ∈ tr, e.2.exitOk = true) :
    ExitsBy (verdictOf progs fun _ => true) tr := by
  intro t pid rc hm ch hc
  obtain ⟨pre, post, t', -, hpre, -, -⟩ := h.step_of_mem hm
  have hi := run_ids hpre
  obtain ⟨p, hp, -⟩ := hi.pidOwner pid ch.owner (hi.child pid ch hc).2
  have hlt : ch.owner < progs.length := boot_length H progs ▸ hi.lt_of_get hp
  refine ⟨fun _ => verdictOf_get (fun _ => true) ⟨ch.owner, hlt⟩, fun _ => of_decide_eq_true (hok _ hm)⟩

theorem completed_bDone : Completed bareHost chainAB (fun _ => true)
    (trace (step bareHost) (boot bareHost chainAB) (aDone ++ .notify :: bDone))
    ((exec (step bareHost) (boot bareHost chainAB) (aDone ++ .notify :: bDone)).get bDone_possible) where
  run := Run.of_isSome bDone_possible
  returned := by decide
  unasked := by decide
  threwNothing := by decide
  exits := exitsBy_ok (Run.of_isSome bDone_possible) (by decide)

theorem completed_aThenB : Completed bareHost chainBA (fun _ => true)
    (trace (step bareHost) (boot bareHost chainBA) aThenB)
    ((exec (step bareHost) (boot bareHost chainBA) aThenB).get aThenB_possible) where
  run := Run.of_isSome aThenB_possible
  returned := by decide
  unasked := by decide
  threwNothing := by decide
  exits := exitsBy_ok (Run.of_isSome aThenB_possible) (by decide)

/-- The two places change. -/
def swapAB : Fin chainAB.length ≃ Fin chainBA.length := Fin.revPerm (n := 2)

theorem renames_chainBA : Renames chainAB chainBA swapAB := by
  rintro ⟨n, hn⟩
  have hlt : n < 2 := hn
  interval_cases n <;> rfl

theorem outcome_listing_chainBA :
    ((exec (step bareHost) (boot bareHost chainAB) (aDone ++ .notify :: bDone)).get bDone_possible).stateOf 1 =
      ((exec (step bareHost) (boot bareHost chainBA) aThenB).get aThenB_possible).stateOf 0 :=
  outcome_listing renames_chainBA (by unfold OrderFree; decide) (by decide) completed_bDone completed_aThenB
    ⟨1, by decide⟩

end Scinit
