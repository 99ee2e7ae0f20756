/-
# What a child executes

The child runs `do_fork` on from `fork`: it makes the write ends of its two pipes
its stdout and stderr, drops its privileges and executes its program, or exits
with -1. In every run the program that is executed is the entry it was forked
for, with that entry's arguments, environment and credentials, and its output
goes where scinit reads it (where `dup2` succeeds); no program gets hold of a
descriptor that another started one writes to, so the hang-up of a pipe is that of
its program (`launched_right`). What it also gets are the read ends of all programs
started before it, both ends of the pipes that a failed attempt left open, and the
mask of `setup_signal_handlers`, which nothing undoes.

Key definitions: `childBlock`, `Launch`, `Launched`.
Key theorems: `run_pristine`, `childFiles_apply`, `launched_right`.
-/
import Scinit.Files
import Scinit.Privileges

namespace Scinit

open Transition

/-! ### The code -/

/-- What the calls of the child answer. `dup2` is repeated while it is interrupted. -/
structure ChildCalls where
  dupOut : Bool
  dupErr : Bool
  caps : CapsCalls
  exec : Bool

/-- What `execvpe` runs a program with. -/
structure Launch where
  program : Text
  argv : List Text
  envp : List Text
  files : Files
  mask : List ℕ
  cred : Credentials

inductive ChildEnd
  | exit (status : ℤ)
  | exec (l : Launch)

/-- The descriptors before `handle_caps`. Another failure of `dup2` is not looked at. -/
def childFiles (a : ChildCalls) (p : ChildProcess) (T : Files) : Files :=
  let T := if a.dupOut then T.dup2 p.stdout.2 1 else T
  let T := if a.dupErr then T.dup2 p.stderr.2 2 else T
  (T.close p.stdout.2).close p.stderr.2

/-- The branch of `do_fork` with `primaryPid == 0`. -/
def childBlock (L : LibCap) (a : ChildCalls) (p : ChildProcess) (environment : List Text) (T : Files)
    (mask : List ℕ) (cred : Credentials) : ChildEnd :=
  let T := childFiles a p T
  let cArgs := cString p.path :: p.args.map cString
  let cEnv := environment.map cString
  match handleCaps L a.caps p cred with
  | .error _ => .exit (-1)
  | .ok cred =>
    if a.exec then
      .exec { program := cString p.path, argv := cArgs, envp := cEnv, files := T.exec, mask := mask, cred := cred }
    else .exit (-1)

/-- The descriptors a child is forked with. -/
def forkFiles (out err : ℤ × ℤ) (T : Files) : Files := (T.openPair out).openPair err

/-- What the child of a start attempt that forks comes to. `T` is what scinit has open
before, `cred` are the credentials of scinit. -/
def childEnd (H : Host) (L : LibCap) (a : ChildCalls) (T : Files) (cred : Credentials) (s : Sys) (c : StartCalls)
    (r : Ref) : Option ChildEnd :=
  match s.objs[r]?, c.out, c.err, c.fork with
  | some p, some out, some err, some _ =>
    match handleEnv H p with
    | .error _ => none
    | .ok environment =>
      some (childBlock L a (doFork H c r p s.kernel s.handler.idForPid).self environment (forkFiles out err T)
        s.kernel.mask cred)
  | _, _, _, _ => none

variable {H : Host} {progs : List Program} {base : Objs} {tr : List (Sys × Label)} {s s' : Sys} {l : Label}
  {c : StartCalls} {r : Ref} {p p' : ChildProcess} {fd : ℤ} {T : Files} {out err : ℤ × ℤ} {g : Program}
  {L : LibCap} {a : ChildCalls} {cred : Credentials} {pid : ℤ}

/-! ### What of an object stays as it was configured -/

/-- An object with all that a run changes taken back. -/
def ChildProcess.pristine (p : ChildProcess) : ChildProcess :=
  { p with
    before := []
    after := []
    conditions := []
    stdout := (-1, -1)
    stderr := (-1, -1)
    primaryPid := -1
    stdoutPTYName := {}
    stderrPTYName := {}
    state := .blocked }

theorem pristine_released (objs : Objs) (otherProcs : Map ℕ (Option Ref)) (p : ChildProcess) :
    (p.released objs otherProcs).pristine = p.pristine := by
  unfold ChildProcess.released
  split <;> rfl

theorem pristine_of_effect (hw : WellFormed base) (hi : Ids base s) (he : Effect H s l s') (r : Ref) :
    s'.objs[r]?.map ChildProcess.pristine = s.objs[r]?.map ChildProcess.pristine := by
  cases he with
  | setup | setupFailed | skipped | started | epollWait | reapUnknown | reaped | output | hungUp | eventFailed
  | exitTest | act => rfl
  | notify =>
    show (notifyAll s).objs[r]?.map _ = _
    rw [notifyAll_get (hi.sensible hw), Option.map_map]
    congr 1
    funext p
    simp only [Function.comp_apply]
    split
    · exact pristine_released _ _ p
    · rfl
  | threw _ hp | unregistered _ hp | forked _ hp => exact map_getElem?_set hp (by rfl) r
  | @reap batch pid rc ch _ hc =>
    obtain ⟨p, hp, -⟩ := hi.pidOwner pid ch.owner (hi.child pid ch hc).2
    rw [Sys.reaped_objs hp]
    exact map_getElem?_set hp (by rfl) r
  | signalled =>
    show (signalReceived _ _).objs[r]?.map _ = _
    rw [signalReceived_objs]
  | signal => rw [deliver_objs]

/-- An object is what the constructor made of its entry, but for what a run changes. -/
theorem run_pristine (h : Runs H progs tr s) (r : Ref) : s.objs[r]?.map ChildProcess.pristine =
    progs[r]?.map fun g => (ChildProcess.new H g r).pristine := by
  induction h with
  | refl =>
    rw [boot_get, fresh_get, Option.map_map, Option.map_map]
    rfl
  | @snoc tr s s' l h hs ih =>
    obtain ⟨hi, -, he⟩ := run_effect h hs
    rw [pristine_of_effect (boot_wellFormed H progs) hi he, ih]

/-- The entry of an object, and what the child makes of it. -/
theorem entry_of_object (h : Runs H progs tr s) (hp : s.objs[r]? = some p) : ∃ g, progs[r]? = some g ∧
    p.path = g.path ∧ p.args = g.args ∧ handleEnv H p = handleEnv H (ChildProcess.new H g r) ∧
    ∀ L a cred, handleCaps L a p cred = handleCaps L a (ChildProcess.new H g r) cred := by
  have hpri := run_pristine h r
  rw [hp, Option.map_some, eq_comm, Option.map_eq_some_iff] at hpri
  obtain ⟨g, hg, hpri⟩ := hpri
  refine ⟨g, hg, (congrArg ChildProcess.path hpri).symm, (congrArg ChildProcess.args hpri).symm, ?_, fun L a cred => ?_⟩
  · exact (congrArg (handleEnv H) hpri).symm
  · exact (congrArg (fun q => handleCaps L a q cred) hpri).symm

/-! ### The descriptors of the child -/

/-- Both redirections, and what is left of the descriptors they came from. -/
theorem childFiles_apply {f f' : OpenFile File} (hout : T p.stdout.2 = some f) (herr : T p.stderr.2 = some f')
    (ho : p.stdout.2 ≠ 1 ∧ p.stdout.2 ≠ 2) (he : p.stderr.2 ≠ 1 ∧ p.stderr.2 ≠ 2) (fd : ℤ) :
    childFiles a p T fd =
      if fd = p.stdout.2 ∨ fd = p.stderr.2 then none
      else if fd = 1 ∧ a.dupOut = true then some ⟨f.file, false⟩
      else if fd = 2 ∧ a.dupErr = true then some ⟨f'.file, false⟩
      else T fd := by
  obtain ⟨ho1, ho2⟩ := ho
  obtain ⟨he1, he2⟩ := he
  have hfirst : ∀ fd, (if a.dupOut = true then T.dup2 p.stdout.2 1 else T) fd =
      if fd = 1 ∧ a.dupOut = true then some ⟨f.file, false⟩ else T fd := fun fd => by
    cases a.dupOut
    · simp
    · simp [FileTable.dup2_apply ho1 hout]
  have herr' : (if a.dupOut = true then T.dup2 p.stdout.2 1 else T) p.stderr.2 = some f' := by
    rw [hfirst, if_neg fun h => he1 h.1, herr]
  have hboth : ∀ fd, (if a.dupErr = true then (if a.dupOut = true then T.dup2 p.stdout.2 1 else T).dup2 p.stderr.2 2
      else if a.dupOut = true then T.dup2 p.stdout.2 1 else T) fd =
      if fd = 2 ∧ a.dupErr = true then some ⟨f'.file, false⟩
      else if fd = 1 ∧ a.dupOut = true then some ⟨f.file, false⟩ else T fd := fun fd => by
    cases a.dupErr
    · simpa using hfirst fd
    · simp only [if_true, and_true, FileTable.dup2_apply he2 herr', hfirst]
  simp only [childFiles, FileTable.close_apply]
  by_cases h1 : fd = p.stderr.2
  · simp [h1]
  · by_cases h2 : fd = p.stdout.2
    · simp [h2]
    · rw [if_neg h1, if_neg h2, if_neg (not_or.mpr ⟨h2, h1⟩)]
      refine (hboth fd).trans ?_
      by_cases h3 : fd = 1
      · subst h3
        simp
      · simp [h3]

/-- The program of an entry is executed with what is its own. A `dup2` that fails leaves
it the descriptor of scinit; the pipes of an attempt that failed are not spoken of. -/
structure Launched (H : Host) (s : Sys) (g : Program) (r : Ref) (out err : ℤ × ℤ)
    (L : LibCap) (a : ChildCalls) (cred : Credentials) (l : Launch) : Prop where
  program : l.program = cString g.path
  argv : l.argv = cString g.path :: g.args.map cString
  envp : ∃ environment, handleEnv H (ChildProcess.new H g r) = .ok environment ∧ l.envp = environment.map cString
  cred : handleCaps L a.caps (ChildProcess.new H g r) cred = .ok l.cred
  mask : l.mask = [sigChld, sigInt, sigQuit]
  stdin : l.files 0 = some ⟨.given 0, false⟩
  stdout : l.files 1 = some ⟨if a.dupOut then .writeEnd out.1 else .given 1, false⟩
  stderr : l.files 2 = some ⟨if a.dupErr then .writeEnd err.1 else .given 2, false⟩
  own : ∀ fd f, l.files fd = some f → (f.file = .writeEnd out.1 → fd = 1) ∧ (f.file = .writeEnd err.1 → fd = 2)
  others : ∀ (r' : Ref) (p' : ChildProcess) (type : FDType), s.objs[r']? = some p' → p'.started →
    ¬ l.files.Holds (.writeEnd (p'.readEnd type))
  readEnds : ∀ (r' : Ref) (p' : ChildProcess) (type : FDType), s.objs[r']? = some p' → p'.started →
    l.files (p'.readEnd type) = some ⟨.readEnd (p'.readEnd type), false⟩
  loop : l.files s.handler.signalFd = none ∧ l.files s.handler.epollFd = none

section

variable {k : Kernel}

/-- The descriptors after `childFiles` of a child with freshly opened pairs. -/
theorem childFiles_forked (hk : k.MayStart c) (hout : c.out = some out) (herr : c.err = some err)
    (hstd : ∀ fd ∈ ([0, 1, 2] : List ℤ), fd ∈ k.fds) (hpo : p.stdout = out) (hpe : p.stderr = err) (fd : ℤ) :
    childFiles a p (forkFiles out err T) fd =
      if fd = out.2 ∨ fd = err.2 then none
      else if fd = 1 ∧ a.dupOut = true then some ⟨.writeEnd out.1, false⟩
      else if fd = 2 ∧ a.dupErr = true then some ⟨.writeEnd err.1, false⟩
      else if fd = err.1 then some ⟨.readEnd err.1, false⟩
      else if fd = out.1 then some ⟨.readEnd out.1, false⟩
      else T fd := by
  obtain ⟨-, -, ho1, ho2, ho⟩ := hk.1 out hout
  obtain ⟨-, -, he1, he2, he, hne⟩ := hk.2.1 err herr
  obtain ⟨h1, h2, h3, h4⟩ := hne out hout
  have hnot : ∀ {x : ℤ}, x ∉ k.fds → x ≠ 1 ∧ x ≠ 2 := fun hx =>
    ⟨fun h => hx (h ▸ hstd 1 (by decide)), fun h => hx (h ▸ hstd 2 (by decide))⟩
  have hfiles : ∀ x, forkFiles out err T x = if x = err.2 then some ⟨.writeEnd err.1, false⟩
      else if x = err.1 then some ⟨.readEnd err.1, false⟩ else if x = out.2 then some ⟨.writeEnd out.1, false⟩
      else if x = out.1 then some ⟨.readEnd out.1, false⟩ else T x := fun x => by
    rw [forkFiles, Files.openPair_apply, Files.openPair_apply]
  have hT : forkFiles out err T p.stdout.2 = some ⟨.writeEnd out.1, false⟩ := by
    rw [hpo, hfiles, if_neg (Ne.symm h4), if_neg (Ne.symm h2), if_pos rfl]
  have hT' : forkFiles out err T p.stderr.2 = some ⟨.writeEnd err.1, false⟩ := by
    rw [hpe, hfiles, if_pos rfl]
  rw [childFiles_apply hT hT' (hpo ▸ hnot ho2) (hpe ▸ hnot he2), hpo, hpe]
  by_cases hc : fd = out.2 ∨ fd = err.2
  · rw [if_pos hc, if_pos hc]
  · rw [if_neg hc, if_neg hc, hfiles, if_neg fun h => hc (Or.inr h)]
    simp only [if_neg fun h : fd = out.2 => hc (Or.inl h)]

/-- The descriptors that were open before are the child's too, but for 1 and 2. -/
theorem childFiles_of_open (hk : k.MayStart c) (hout : c.out = some out) (herr : c.err = some err)
    (hstd : ∀ fd ∈ ([0, 1, 2] : List ℤ), fd ∈ k.fds) (hpo : p.stdout = out) (hpe : p.stderr = err)
    (hfd : fd ∈ k.fds) (h1 : fd ≠ 1) (h2 : fd ≠ 2) : childFiles a p (forkFiles out err T) fd = T fd := by
  obtain ⟨-, -, ho1, ho2, -⟩ := hk.1 out hout
  obtain ⟨-, -, he1, he2, -⟩ := hk.2.1 err herr
  have hne : ∀ {x : ℤ}, x ∉ k.fds → fd ≠ x := fun hx h => hx (h ▸ hfd)
  rw [childFiles_forked hk hout herr hstd hpo hpe, if_neg (not_or.mpr ⟨hne ho2, hne he2⟩), if_neg fun h => h1 h.1,
    if_neg fun h => h2 h.1, if_neg (hne he1), if_neg (hne ho1)]

/-- A write end that the child has is its own, or was open before. -/
theorem writeEnd_childFiles (hk : k.MayStart c) (hout : c.out = some out) (herr : c.err = some err)
    (hstd : ∀ fd ∈ ([0, 1, 2] : List ℤ), fd ∈ k.fds) (hpo : p.stdout = out) (hpe : p.stderr = err) {pipe : ℤ}
    {f : OpenFile File} (hf : childFiles a p (forkFiles out err T) fd = some f) (hfile : f.file = .writeEnd pipe) :
    (pipe = out.1 ∧ fd = 1) ∨ (pipe = err.1 ∧ fd = 2) ∨ T.Holds (.writeEnd pipe) := by
  rw [childFiles_forked hk hout herr hstd hpo hpe] at hf
  split at hf
  · cases hf
  · split at hf
    · rename_i h
      cases hf
      exact Or.inl ⟨(File.writeEnd.inj hfile).symm, h.1⟩
    · split at hf
      · rename_i h
        cases hf
        exact Or.inr (Or.inl ⟨(File.writeEnd.inj hfile).symm, h.1⟩)
      · split at hf
        · cases hf
          cases hfile
        · split at hf
          · cases hf
            cases hfile
          · exact Or.inr (Or.inr ⟨fd, f, hf, hfile⟩)

end

/-- What the child has when it executes its program. -/
theorem launched_files (hfiled : Filed T s) (hset : s.pc ≠ .setup) (hk : s.kernel.MayStart c) (hout : c.out = some out)
    (herr : c.err = some err) (hpo : p.stdout = out) (hpe : p.stderr = err) {F : Files}
    (hF : F = (childFiles a p (forkFiles out err T)).exec) :
    F 0 = some ⟨.given 0, false⟩ ∧
    F 1 = some ⟨if a.dupOut then .writeEnd out.1 else .given 1, false⟩ ∧
    F 2 = some ⟨if a.dupErr then .writeEnd err.1 else .given 2, false⟩ ∧
    (∀ (r' : Ref) (p' : ChildProcess) (type : FDType), s.objs[r']? = some p' → p'.started →
      F (p'.readEnd type) = some ⟨.readEnd (p'.readEnd type), false⟩) ∧
    F s.handler.signalFd = none ∧ F s.handler.epollFd = none := by
  have hstd : ∀ fd ∈ ([0, 1, 2] : List ℤ), fd ∈ s.kernel.fds := fun fd hfd =>
    mem_fds_of_apply hfiled.isOpen (hfiled.given fd hfd)
  obtain ⟨-, -, ho1, ho2, ho⟩ := hk.1 out hout
  obtain ⟨-, -, he1, he2, he, hne⟩ := hk.2.1 err herr
  -- what is not one of the standard descriptors is no 1 and no 2
  have hother : ∀ {fd : ℤ} {f : OpenFile File}, T fd = some f → (∀ i, f.file ≠ .given i) →
      childFiles a p (forkFiles out err T) fd = some f := by
    intro fd f hf hgiven
    have hno : ∀ i ∈ ([0, 1, 2] : List ℤ), fd ≠ i := by
      rintro i hi rfl
      rw [hfiled.given fd hi, Option.some.injEq] at hf
      exact hgiven fd (by rw [← hf])
    rw [childFiles_of_open hk hout herr hstd hpo hpe (mem_fds_of_apply hfiled.isOpen hf) (hno 1 (by decide))
      (hno 2 (by decide)), hf]
  have hdropped : ∀ {fd : ℤ} {file : File}, T fd = some ⟨file, true⟩ → (∀ i, file ≠ .given i) → F fd = none := by
    intro fd file hf hgiven
    rw [hF, FileTable.exec, hother hf hgiven]
    rfl
  obtain ⟨hsig, hepoll⟩ := hfiled.loop hset
  have happly := fun fd => childFiles_forked (a := a) (T := T) hk hout herr hstd hpo hpe fd
  have hfar : ∀ i ∈ ([0, 1, 2] : List ℤ), ¬ (i = out.2 ∨ i = err.2) ∧ i ≠ err.1 ∧ i ≠ out.1 := fun i hi =>
    ⟨not_or.mpr ⟨fun h => ho2 (h ▸ hstd i hi), fun h => he2 (h ▸ hstd i hi)⟩, fun h => he1 (h ▸ hstd i hi),
      fun h => ho1 (h ▸ hstd i hi)⟩
  refine ⟨?_, ?_, ?_, fun r' p' type hp' hst => ?_, hdropped hsig (by simp), hdropped hepoll (by simp)⟩
  · rw [hF, FileTable.exec_eq_some]
    refine ⟨?_, rfl⟩
    rw [childFiles_of_open hk hout herr hstd hpo hpe (hstd 0 (by decide)) (by decide) (by decide)]
    exact hfiled.given 0 (by decide)
  · obtain ⟨h1, h2, h3⟩ := hfar 1 (by decide)
    rw [hF, FileTable.exec_eq_some]
    refine ⟨?_, rfl⟩
    rw [happly, if_neg h1, if_neg h2, if_neg h3, hfiled.given 1 (by decide)]
    cases a.dupOut <;> simp
  · obtain ⟨h1, h2, h3⟩ := hfar 2 (by decide)
    rw [hF, FileTable.exec_eq_some]
    refine ⟨?_, rfl⟩
    rw [happly, if_neg h1, if_neg h2, if_neg h3, hfiled.given 2 (by decide)]
    cases a.dupErr <;> simp
  · rw [hF, FileTable.exec_eq_some]
    exact ⟨hother (hfiled.stream r' p' type hp' hst).1 (by simp), rfl⟩

/-- The write ends it has are its own two. -/
theorem launched_writeEnds (hfiled : Filed T s) (hk : s.kernel.MayStart c) (hout : c.out = some out)
    (herr : c.err = some err) (hpo : p.stdout = out) (hpe : p.stderr = err) {F : Files}
    (hF : F = (childFiles a p (forkFiles out err T)).exec) {f : OpenFile File} {pipe : ℤ}
    (hf : F fd = some f) (hfile : f.file = .writeEnd pipe) :
    (pipe = out.1 ∧ fd = 1) ∨ (pipe = err.1 ∧ fd = 2) ∨ T.Holds (.writeEnd pipe) := by
  rw [hF, FileTable.exec_eq_some] at hf
  exact writeEnd_childFiles hk hout herr
    (fun fd hfd => mem_fds_of_apply hfiled.isOpen (hfiled.given fd hfd)) hpo hpe hf.1 hfile

/-- Its output is where its own two are, and nowhere else. -/
theorem launched_own (hfiled : Filed T s) (hk : s.kernel.MayStart c) (hout : c.out = some out)
    (herr : c.err = some err) (hpo : p.stdout = out) (hpe : p.stderr = err) {F : Files}
    (hF : F = (childFiles a p (forkFiles out err T)).exec) {f : OpenFile File} (hf : F fd = some f) :
    (f.file = .writeEnd out.1 → fd = 1) ∧ (f.file = .writeEnd err.1 → fd = 2) := by
  obtain ⟨-, -, ho1, -⟩ := hk.1 out hout
  obtain ⟨-, -, he1, -, -, hne⟩ := hk.2.1 err herr
  obtain ⟨hoe, -⟩ := hne out hout
  constructor <;> intro hfile
  · rcases launched_writeEnds hfiled hk hout herr hpo hpe hF hf hfile with ⟨-, h⟩ | ⟨h, -⟩ | h
    · exact h
    · exact absurd h.symm hoe
    · exact absurd (hfiled.pipes _ h) ho1
  · rcases launched_writeEnds hfiled hk hout herr hpo hpe hF hf hfile with ⟨h, -⟩ | ⟨-, h⟩ | h
    · exact absurd h hoe
    · exact h
    · exact absurd (hfiled.pipes _ h) he1

/-- It can write to no program that was started before. -/
theorem launched_others (hfiled : Filed T s) (hk : s.kernel.MayStart c) (hout : c.out = some out)
    (herr : c.err = some err) (hpo : p.stdout = out) (hpe : p.stderr = err) {F : Files}
    (hF : F = (childFiles a p (forkFiles out err T)).exec) (hp' : s.objs[r]? = some p') (hst : p'.started)
    {type : FDType} : ¬ F.Holds (.writeEnd (p'.readEnd type)) := by
  rintro ⟨fd, f, hf, hfile⟩
  obtain ⟨-, -, ho1, -⟩ := hk.1 out hout
  obtain ⟨-, -, he1, -⟩ := hk.2.1 err herr
  obtain ⟨hread, hno⟩ := hfiled.stream r p' type hp' hst
  have hin := mem_fds_of_apply hfiled.isOpen hread
  rcases launched_writeEnds hfiled hk hout herr hpo hpe hF hf hfile with ⟨h, -⟩ | ⟨h, -⟩ | h
  · exact ho1 (h ▸ hin)
  · exact he1 (h ▸ hin)
  · exact hno h

/-- What scinit reads the output of a forked process from. -/
theorem readEnd_of_fork (he : Effect H s (.start c) s') (hfork : forkOf H s (.start c) = some r)
    (hout : c.out = some out) (herr : c.err = some err) :
    ∃ p', s'.objs[r]? = some p' ∧ p'.readEnd .stdout = out.1 ∧ p'.readEnd .stderr = err.1 := by
  obtain ⟨c', site, todo, p, hl, hpc, hp, hr, hn, hexn⟩ := forkOf_eq_some hfork
  cases hl
  have hset : ∀ p' : ChildProcess, (s.objs.set r p')[r]? = some p' := fun p' => by
    rw [List.getElem?_set_self (List.getElem?_eq_some_iff.mp hp).1]
  cases he with
  | skipped hpc' hskip =>
    rw [hpc] at hpc'
    cases hpc'
    exact absurd (hskip p hp hr) hn
  | threw hpc' hp' _ _ _ _ hexn' =>
    rw [hpc] at hpc'
    cases hpc'
    rw [hp] at hp'
    cases hp'
    exact absurd hexn hexn'
  | unregistered hpc' hp' _ _ _ hout' herr' | forked hpc' hp' _ _ _ hout' herr' =>
    rw [hpc] at hpc'
    cases hpc'
    obtain rfl := Option.some.inj (hout'.symm.trans hout)
    obtain rfl := Option.some.inj (herr'.symm.trans herr)
    exact ⟨_, hset _, rfl, rfl⟩

/-- What a forked child runs on with: the object of its entry, and freshly opened pairs. -/
theorem childEnd_eq (h : Runs H progs tr s) (hs : step H s (.start c) = some s')
    (hfork : forkOf H s (.start c) = some r) (hpid : c.fork = some pid) :
    ∃ g q out err environment, progs[r]? = some g ∧ c.out = some out ∧ c.err = some err ∧
      q.stdout = out ∧ q.stderr = err ∧ q.path = g.path ∧ q.args = g.args ∧
      handleEnv H (ChildProcess.new H g r) = .ok environment ∧
      (∀ L b cred, handleCaps L b q cred = handleCaps L b (ChildProcess.new H g r) cred) ∧
      ∀ L a T cred, childEnd H L a T cred s c r =
        some (childBlock L a q environment (forkFiles out err T) s.kernel.mask cred) := by
  obtain ⟨-, -, hk, -⟩ := start_fds hs
  obtain ⟨c', site, todo, p, hl, hpc, hp, hr, hn, hexn⟩ := forkOf_eq_some hfork
  cases hl
  obtain ⟨g, hg, hpath, hargs, henvg, hcaps⟩ := entry_of_object h hp
  rcases doFork_cases hk r hr s.handler.idForPid with
    ⟨out, err, b, b', k', e, -, hfork'⟩ | ⟨out, err, b, b', environment, hout, herr, henv, hfork'⟩
  · rw [hfork'] at hexn
    cases hexn
  refine ⟨g, (doFork H c r p s.kernel s.handler.idForPid).self, out, err, environment, hg, hout, herr, ?_, ?_, ?_, ?_,
    henvg.symm.trans henv, fun L b cred => ?_, fun L a T cred => ?_⟩
  · rw [hfork']; rfl
  · rw [hfork']; rfl
  · rw [hfork']; exact hpath
  · rw [hfork']; exact hargs
  · have hpri : (doFork H c r p s.kernel s.handler.idForPid).self.pristine = p.pristine := by rw [hfork']; rfl
    exact (congrArg (fun q => handleCaps L b q cred) hpri).trans (hcaps L b cred)
  · simp only [childEnd, hp, hout, herr, hpid]
    rw [show handleEnv H p = .ok environment from henv]

/-- What a child has that executes something. -/
theorem childEnd_eq_exec (h : Runs H progs tr s) (hs : step H s (.start c) = some s')
    (hfork : forkOf H s (.start c) = some r) {l : Launch} (hend : childEnd H L a T cred s c r = some (.exec l)) :
    ∃ g q out err, progs[r]? = some g ∧ c.out = some out ∧ c.err = some err ∧ q.stdout = out ∧ q.stderr = err ∧
      handleCaps L a.caps (ChildProcess.new H g r) cred = .ok l.cred ∧
      l.files = (childFiles a q (forkFiles out err T)).exec := by
  obtain ⟨pid, hpid⟩ : ∃ pid, c.fork = some pid := by
    unfold childEnd at hend
    split at hend
    · rename_i pid _ _ _ hpid
      exact ⟨_, hpid⟩
    · cases hend
  obtain ⟨g, q, out, err, environment, hg, hout, herr, hpo, hpe, -, -, -, hcaps, heq⟩ := childEnd_eq h hs hfork hpid
  rw [heq, Option.some.injEq, childBlock, hcaps] at hend
  cases hok : handleCaps L a.caps (ChildProcess.new H g r) cred with
  | error text =>
    rw [hok] at hend
    cases hend
  | ok cred' =>
    simp only [hok] at hend
    split at hend
    · cases hend
      exact ⟨g, q, out, err, hg, hout, herr, hpo, hpe, hok, rfl⟩
    · cases hend

/-- **The program a child executes** is the entry it was forked for, and its output goes
where scinit reads it. Where its privileges cannot be dropped, or it cannot be
executed, the child exits with -1. -/
theorem launched_right (h : Runs H progs tr s) (hs : step H s (.start c) = some s')
    (hfork : forkOf H s (.start c) = some r) (hpid : c.fork = some pid) :
    ∃ g out err, progs[r]? = some g ∧ c.out = some out ∧ c.err = some err ∧
      (∃ p', s'.objs[r]? = some p' ∧ p'.readEnd .stdout = out.1 ∧ p'.readEnd .stderr = err.1) ∧
      ∀ (L : LibCap) (a : ChildCalls) (cred : Credentials),
        childEnd H L a (filesOf H tr) cred s c r = some (.exit (-1)) ∧
            (a.exec = false ∨ ∀ cred', handleCaps L a.caps (ChildProcess.new H g r) cred ≠ .ok cred') ∨
          ∃ l, childEnd H L a (filesOf H tr) cred s c r = some (.exec l) ∧ Launched H s g r out err L a cred l := by
  obtain ⟨r', hturn, hk, -⟩ := start_fds hs
  have hset : s.pc ≠ .setup := fun hset => by
    rw [hset] at hturn
    cases hturn
  have hns := not_thrown_of_step hs
  have hfiled := run_filed h hns
  obtain ⟨g, q, out, err, environment, hg, hout, herr, hpo, hpe, hpath, hargs, henv, hcaps, hend⟩ :=
    childEnd_eq h hs hfork hpid
  refine ⟨g, out, err, hg, hout, herr, readEnd_of_fork (run_effect h hs).2.2 hfork hout herr, fun L a cred => ?_⟩
  rw [hend, childBlock, hcaps]
  cases hok : handleCaps L a.caps (ChildProcess.new H g r) cred with
  | error text => exact Or.inl ⟨rfl, Or.inr fun cred' h => by cases h⟩
  | ok cred' =>
    cases hexec : a.exec with
    | false => exact Or.inl ⟨rfl, Or.inl rfl⟩
    | true =>
      refine Or.inr ⟨_, rfl, ?_⟩
      obtain ⟨hin, hout1, herr2, hreads, hloop⟩ := launched_files (a := a) hfiled hset hk hout herr hpo hpe rfl
      exact {
        program := congrArg cString hpath
        argv := by
          show cString q.path :: q.args.map cString = _
          rw [hpath, hargs]
        envp := ⟨environment, henv, rfl⟩
        cred := hok
        mask := run_mask h hset hns
        stdin := hin
        stdout := hout1
        stderr := herr2
        own := fun _ _ hf => launched_own hfiled hk hout herr hpo hpe rfl hf
        others := fun _ _ _ hp' hst => launched_others hfiled hk hout herr hpo hpe rfl hp' hst
        readEnds := hreads
        loop := hloop }

/-- Two programs. -/
def plainPQ : List Program := [plain 'p' "simple" [] [], plain 'q' "simple" [] []]

/-- The first of them is running, and it is the second one's turn. -/
theorem plainPQ_possible : (exec (step bareHost) (boot bareHost plainPQ) firstStarted).isSome = true := by decide

theorem plainPQ_forks : forkOf bareHost ((exec (step bareHost) (boot bareHost plainPQ) firstStarted).get
    plainPQ_possible) (.start (startOk 20 101)) = some 1 := by decide

theorem plainPQ_step : (step bareHost ((exec (step bareHost) (boot bareHost plainPQ) firstStarted).get
    plainPQ_possible) (.start (startOk 20 101))).isSome = true := by decide

/-- The first one's output is read from descriptor 10. -/
theorem plainPQ_first : ∃ p, ((exec (step bareHost) (boot bareHost plainPQ) firstStarted).get
    plainPQ_possible).objs[(0 : ℕ)]? = some p ∧ p.started ∧ p.readEnd .stdout = 10 := by
  have hany : (((exec (step bareHost) (boot bareHost plainPQ) firstStarted).get plainPQ_possible).objs[(0 : ℕ)]?.any
      fun p => p.started ∧ p.readEnd .stdout = 10) = true := by decide
  obtain ⟨p, hp, hall⟩ := (Option.any_eq_true _ _).mp hany
  exact ⟨p, hp, of_decide_eq_true hall⟩

/-- Root can give up everything. -/
theorem plain_drops : (handleCaps someLibCap capsOk (ChildProcess.new bareHost (plain 'q' "simple" [] []) 1)
    rootCredentials).isOk = true := by decide +kernel

theorem launched_right_plainPQ : ∃ l, childEnd bareHost someLibCap ⟨true, true, capsOk, true⟩
    (filesOf bareHost (trace (step bareHost) (boot bareHost plainPQ) firstStarted)) rootCredentials
    ((exec (step bareHost) (boot bareHost plainPQ) firstStarted).get plainPQ_possible)
    (startOk 20 101) 1 = some (.exec l) ∧ l.program = ['q'] ∧ l.files 1 = some ⟨.writeEnd 20, false⟩ ∧
      ¬ l.files.Holds (.writeEnd 10) ∧ l.files 10 = some ⟨.readEnd 10, false⟩ := by
  obtain ⟨p, hp, hst, hread⟩ := plainPQ_first
  obtain ⟨g, out, err, hg, hout, herr, -, hall⟩ := launched_right (Run.of_isSome plainPQ_possible)
    (Option.some_get plainPQ_step).symm plainPQ_forks rfl
  obtain rfl := Option.some.inj hg
  obtain rfl := Option.some.inj hout
  rcases hall someLibCap ⟨true, true, capsOk, true⟩ rootCredentials with ⟨-, hexec | hcaps⟩ | ⟨l, hl, hright⟩
  · cases hexec
  · have hok := plain_drops
    cases hdrop : handleCaps someLibCap capsOk (ChildProcess.new bareHost (plain 'q' "simple" [] []) 1)
      rootCredentials with
    | error text =>
      rw [hdrop] at hok
      cases hok
    | ok cred => exact absurd hdrop (hcaps cred)
  · have hothers := hright.others 0 p .stdout hp hst
    have hreads := hright.readEnds 0 p .stdout hp hst
    rw [hread] at hothers hreads
    exact ⟨l, hl, hright.program, hright.stdout, hothers, hreads⟩

end Scinit
