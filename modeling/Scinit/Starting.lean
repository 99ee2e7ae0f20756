/-
# What a start attempt does

`start_programs` calls three functions on a ready object, with about eight
places where an exception leaves them. What they leave is said here once
(`startProgram_outcome`): either an exception before the fork, with nothing
changed but descriptors and the object's note of them, or a fork, after which
`register_with_epoll` succeeds or throws. The first loop of `start_programs`
is said by `notifyAll_get`.

Key definitions: `Kernel.Opened`, `ReachesFork`, `forkExn`, `Outcome`, `met`.
Key theorems: `doFork_cases`, `doFork_spec`, `doFork_exn_iff`, `startProgram_outcome`, `notifyAll_get`.
-/
import Scinit.Config

namespace Scinit

/-- What no step of the event loop changes in an object. -/
def ChildProcess.fixed (p : ChildProcess) : Text × ℕ × ProcessType × List (ℕ × ProcessState) :=
  (p.name, p.graphId, p.type, p.conditions)

namespace ChildProcess

variable {p q : ChildProcess}

theorem name_of_fixed (h : p.fixed = q.fixed) : p.name = q.name := congrArg Prod.fst h

theorem graphId_of_fixed (h : p.fixed = q.fixed) : p.graphId = q.graphId := congrArg (fun x => x.2.1) h

theorem conditions_of_fixed (h : p.fixed = q.fixed) : p.conditions = q.conditions :=
  congrArg (fun x => x.2.2.2) h

end ChildProcess

/-- A process that was forked. -/
def ChildProcess.started (p : ChildProcess) : Prop := p.state ≠ .blocked ∧ p.state ≠ .ready

theorem ChildProcess.started_of_running {p : ChildProcess} (h : p.state = .running) : p.started := by
  unfold ChildProcess.started
  rw [h]
  decide

/-! ### One object of the list -/

/-- After one object is set, an object is that one, or what it was. -/
theorem getElem?_set_cases {objs : Objs} {ref r : Ref} {p p' q : ChildProcess} (hp : objs[ref]? = some p)
    (hq : (objs.set ref p')[r]? = some q) : (r = ref ∧ q = p') ∨ (r ≠ ref ∧ objs[r]? = some q) := by
  by_cases h : ref = r
  · subst h
    rw [List.getElem?_set_self (List.getElem?_eq_some_iff.mp hp).1, Option.some.injEq] at hq
    exact Or.inl ⟨rfl, hq.symm⟩
  · rw [List.getElem?_set_ne h] at hq
    exact Or.inr ⟨Ne.symm h, hq⟩

/-- Setting an object changes no view of the objects that is the same of it. -/
theorem map_getElem?_set {α : Type} {f : ChildProcess → α} {objs : Objs} {ref : Ref} {p p' : ChildProcess}
    (hp : objs[ref]? = some p) (hf : f p' = f p) (r : Ref) : (objs.set ref p')[r]?.map f = objs[r]?.map f := by
  by_cases h : ref = r
  · subst h
    rw [List.getElem?_set_self (List.getElem?_eq_some_iff.mp hp).1, hp, Option.map_some, Option.map_some, hf]
  · rw [List.getElem?_set_ne h]

/-- Changing an object that is there. -/
theorem modify_eq_set {objs : Objs} {ref : Ref} {p : ChildProcess} (hp : objs[ref]? = some p)
    (f : ChildProcess → ChildProcess) : objs.modify ref f = objs.set ref (f p) := by
  rw [List.modify_eq_set_getElem?, hp]
  rfl

/-! ### Opening descriptors -/

/-- The kernel `k'` is `k` after descriptors were opened. -/
structure Kernel.Opened (k k' : Kernel) : Prop where
  children : k'.children = k.children
  epoll : k'.epoll = k.epoll
  mask : k'.mask = k.mask
  pending : k'.pending = k.pending
  fds : k.fds ⊆ k'.fds
  pipes : ∀ fd ∈ k.fds, k'.pipes[fd]? = k.pipes[fd]?
  fresh : ∀ fd q, k'.pipes[fd]? = some q →
    k.pipes[fd]? = some q ∨ (fd ∉ k.fds ∧ fd ∈ k'.fds ∧ q = {})

theorem Kernel.Opened.refl (k : Kernel) : k.Opened k :=
  ⟨rfl, rfl, rfl, rfl, fun _ h => h, fun _ _ => rfl, fun _ _ h => Or.inl h⟩

theorem Kernel.Opened.openPair {k k' : Kernel} (h : k.Opened k') {p : ℤ × ℤ} (hp : p.1 ∉ k.fds) :
    k.Opened (k'.openPair p) where
  children := h.children
  epoll := h.epoll
  mask := h.mask
  pending := h.pending
  fds := fun fd hfd => by simp [Kernel.openPair, h.fds hfd]
  pipes := fun fd hfd => by
    have hne : p.1 ≠ fd := fun he => hp (he ▸ hfd)
    simp [Kernel.openPair, Std.ExtTreeMap.getElem?_insert, hne, h.pipes fd hfd]
  fresh := fun fd q hq => by
    simp only [Kernel.openPair, Std.ExtTreeMap.getElem?_insert, Std.LawfulEqCmp.compare_eq_iff_eq] at hq
    split at hq
    · rename_i he
      subst he
      exact Or.inr ⟨hp, by simp [Kernel.openPair], (Option.some.inj hq).symm⟩
    · rcases h.fresh fd q hq with h1 | ⟨h1, h2, h3⟩
      · exact Or.inl h1
      · exact Or.inr ⟨h1, by simp [Kernel.openPair, h2], h3⟩

/-- The object with its descriptors and terminal names. -/
def ChildProcess.withStdio (p : ChildProcess) (out err : ℤ × ℤ) (b b' : PtyName) : ChildProcess :=
  { p with stdout := out, stderr := err, stdoutPTYName := b, stderrPTYName := b' }

/-- What `openPipes` and `openPtys` leave: an exception, or both pairs of descriptors. -/
inductive Stdio (c : StartCalls) (p : ChildProcess) (k : Kernel) :
    ChildProcess × Kernel × Option Exn → Prop
  | threw {out err : ℤ × ℤ} {b b' : PtyName} {k' : Kernel} {e : Exn} :
      k.Opened k' → Stdio c p k (p.withStdio out err b b', k', some e)
  | opened {out err : ℤ × ℤ} {b b' : PtyName} : c.out = some out → c.err = some err →
      Stdio c p k (p.withStdio out err b b', (k.openPair out).openPair err, none)

theorem openPipes_stdio {c : StartCalls} {k : Kernel} (hk : k.MayStart c) (p : ChildProcess) :
    Stdio c p k (openPipes c p k) := by
  unfold openPipes
  split
  · exact .threw (.refl k)
  · rename_i out hout
    split
    · exact .threw ((Kernel.Opened.refl k).openPair (hk.1 out hout).2.2.1)
    · rename_i err herr
      exact .opened hout herr

theorem openPtys_stdio {c : StartCalls} {k : Kernel} (hk : k.MayStart c) (p : ChildProcess) :
    Stdio c p k (openPtys c p k) := by
  unfold openPtys
  split
  · exact .threw (.refl k)
  · rename_i out hout
    have ho : k.Opened (k.openPair out) := (Kernel.Opened.refl k).openPair (hk.1 out hout).2.2.1
    split
    · exact .threw ho
    · rename_i err herr
      have he := ho.openPair (hk.2.1 err herr).2.2.1
      dsimp only
      split
      · exact .threw he
      · split
        · exact .threw he
        · exact .opened hout herr

/-! ### The attempt -/

/-- The object after the fork. -/
def ChildProcess.forked (p : ChildProcess) (c : StartCalls) (out err : ℤ × ℤ) (b b' : PtyName) :
    ChildProcess :=
  { p.withStdio out err b b' with primaryPid := c.fork.getD (-1), state := .running }

/-- The child that is forked. -/
def childOf (ref : Ref) (p : ChildProcess) (out err : ℤ × ℤ) (environment : List Text) : Child :=
  { owner := ref, out := out.1, err := err.1, argv := p.path :: p.args, envp := environment }

/-- The kernel after the fork. -/
def Kernel.forked (k : Kernel) (c : StartCalls) (out err : ℤ × ℤ) (child : Child) : Kernel :=
  let k := (k.openPair out).openPair err
  let k := if c.fork.isSome then k.addChild (c.fork.getD (-1)) child else k
  (k.closeWriteEnd out c.fork.isSome).closeWriteEnd err c.fork.isSome

/-- The state after the fork. -/
def Sys.forked (s : Sys) (c : StartCalls) (ref : Ref) (p : ChildProcess) (out err : ℤ × ℤ)
    (b b' : PtyName) (environment : List Text) : Sys :=
  { s with
    objs := s.objs.set ref (p.forked c out err b b')
    loggers := s.loggers ++ [p.name]
    kernel := s.kernel.forked c out err (childOf ref p out err environment)
    handler := { s.handler with idForPid := s.handler.idForPid.insert (c.fork.getD (-1)) p.graphId } }

/-- The state after the descriptors are registered too. -/
def Sys.registered (s : Sys) (id : ℕ) (out err : ℤ) : Sys :=
  { s with
    kernel := (s.kernel.epollAdd out).epollAdd err
    handler := { s.handler with
      idForFd := (s.handler.idForFd.insert out id).insert err id
      fdType := (s.handler.fdType.insert out .stdout).insert err .stderr
      numFdForId := s.handler.numFdForId.insert id 2
      numberOfRunningProcs := s.handler.numberOfRunningProcs + 1 } }

/-- `do_fork` of a ready object: an exception before the fork, or the fork. -/
theorem doFork_cases {H : Host} {c : StartCalls} {k : Kernel} (hk : k.MayStart c) (ref : Ref)
    {p : ChildProcess} (hp : p.state = .ready) (reg : Map ℤ ℕ) :
    (∃ out err b b' k' e, k.Opened k' ∧
      doFork H c ref p k reg = ⟨p.withStdio out err b b', k', reg, some e⟩) ∨
    (∃ out err b b' environment, c.out = some out ∧ c.err = some err ∧
      handleEnv H (p.withStdio out err b b') = .ok environment ∧
      doFork H c ref p k reg =
        forkChild c ref environment (p.withStdio out err b b') ((k.openPair out).openPair err) reg) := by
  have hio : Stdio c p k (if p.wantTty = true then openPtys c p k else openPipes c p k) := by
    split
    · exact openPtys_stdio hk p
    · exact openPipes_stdio hk p
  simp only [doFork, hp, ne_eq, not_true_eq_false, if_false]
  generalize (if p.wantTty = true then openPtys c p k else openPipes c p k) = r at hio
  cases hio with
  | threw ho => exact Or.inl ⟨_, _, _, _, _, _, ho, rfl⟩
  | @opened out err b b' hout herr =>
    have ho := ((Kernel.Opened.refl k).openPair (hk.1 out hout).2.2.1).openPair
      (hk.2.1 err herr).2.2.1
    cases henv : handleEnv H (p.withStdio out err b b') with
    | error e => exact Or.inl ⟨out, err, b, b', _, e, ho, by simp only [henv]⟩
    | ok environment => exact Or.inr ⟨out, err, b, b', environment, hout, herr, henv, by simp only [henv]⟩

/-- Whether the start attempt of a ready object gets to its `fork`: both pairs
of descriptors are opened, a terminal has a name, and the environment is built. -/
def ReachesFork (H : Host) (c : StartCalls) (p : ChildProcess) : Prop :=
  (∃ out, c.out = some out ∧ (p.wantTty = true → (ttynameLoop (c.ttyname out.2) {}).2 = 0)) ∧
    c.err.isSome = true ∧ ∃ environment, handleEnv H p = .ok environment

instance (H : Host) (c : StartCalls) (p : ChildProcess) : Decidable (ReachesFork H c p) :=
  decidable_of_iff
    ((c.out.any fun out => !p.wantTty || decide ((ttynameLoop (c.ttyname out.2) {}).2 = 0)) = true ∧
      c.err.isSome = true ∧ (handleEnv H p).toOption.isSome = true)
    (by
      unfold ReachesFork
      cases c.out <;> cases c.err <;> cases handleEnv H p <;> simp [Except.toOption, imp_iff_not_or])

theorem ttynameLoop_rc (name : Except TtyError Text) (b b' : PtyName) :
    (ttynameLoop name b).2 = (ttynameLoop name b').2 := by
  unfold ttynameLoop
  cases name <;> rfl

/-- What opening the descriptors throws. -/
def openExn (c : StartCalls) (p : ChildProcess) : Option Exn :=
  match c.out, c.err with
  | none, _ => some (.childProcess
      (if p.wantTty then "Couldn't allocate stdout pty!" else "Couldn't create stdout pipe!"))
  | some _, none => some (.childProcess
      (if p.wantTty then "Couldn't allocate stderr pty!" else "Couldn't create stderr pipe!"))
  | some out, some _ =>
    if p.wantTty = true ∧ (ttynameLoop (c.ttyname out.2) {}).2 ≠ 0 then
      some (.childProcess "Couldn't load name of stdout pty!")
    else none

/-- What opening the descriptors leaves of the object. -/
theorem opened_spec (H : Host) (c : StartCalls) (p : ChildProcess) (k : Kernel) :
    ∃ q k', (if p.wantTty = true then openPtys c p k else openPipes c p k) = (q, k', openExn c p) ∧
      handleEnv H q = handleEnv H p ∧ q.name = p.name ∧ q.state = p.state := by
  unfold openExn
  by_cases ht : p.wantTty = true
  · simp only [ht, if_true, openPtys, true_and]
    cases c.out with
    | none => exact ⟨_, _, rfl, rfl, rfl, rfl⟩
    | some out =>
      cases c.err with
      | none => exact ⟨_, _, rfl, rfl, rfl, rfl⟩
      | some err =>
        dsimp only
        rw [ttynameLoop_rc _ (p.stdoutPTYName.reserve 64) {}, ttynameLoop_rc _ (p.stderrPTYName.reserve 64) {}]
        by_cases hrc : (ttynameLoop (c.ttyname out.2) {}).2 = 0
        · simp only [hrc, ne_eq, not_true_eq_false, if_false]
          exact ⟨_, _, rfl, rfl, rfl, rfl⟩
        · simp only [hrc, ne_eq, not_false_eq_true, if_true]
          exact ⟨_, _, rfl, rfl, rfl, rfl⟩
  · simp only [ht, if_false, openPipes, Bool.false_eq_true, false_and]
    cases c.out with
    | none => exact ⟨_, _, rfl, rfl, rfl, rfl⟩
    | some out =>
      cases c.err with
      | none => exact ⟨_, _, rfl, rfl, rfl, rfl⟩
      | some err => exact ⟨_, _, rfl, rfl, rfl, rfl⟩

/-- What `do_fork` of a ready object throws, if it throws before the fork. -/
def forkExn (H : Host) (c : StartCalls) (p : ChildProcess) : Option Exn :=
  match openExn c p with
  | some e => some e
  | none =>
    match handleEnv H p with
    | .error e => some e
    | .ok _ => none

/-- **What `do_fork` throws** depends on the object and the answers only; where
it throws the object stays ready, else it runs. -/
theorem doFork_spec {H : Host} (c : StartCalls) (k : Kernel) (r : Ref) {p : ChildProcess}
    (hp : p.state = .ready) (reg : Map ℤ ℕ) :
    (doFork H c r p k reg).exn = forkExn H c p ∧ (doFork H c r p k reg).self.name = p.name ∧
      (doFork H c r p k reg).self.state = if forkExn H c p = none then .running else .ready := by
  obtain ⟨q, k', hopen, henv, hname, hstate⟩ := opened_spec H c p k
  unfold doFork forkExn
  rw [if_neg (not_not.mpr hp), hopen, ← henv]
  cases openExn c p with
  | some e => exact ⟨rfl, hname, hstate.trans hp⟩
  | none =>
    dsimp only
    cases handleEnv H q with
    | error e => exact ⟨rfl, hname, hstate.trans hp⟩
    | ok environment => exact ⟨rfl, hname, rfl⟩

theorem reachesFork_iff {H : Host} {c : StartCalls} {p : ChildProcess} :
    ReachesFork H c p ↔ forkExn H c p = none := by
  unfold ReachesFork forkExn openExn
  cases c.out with
  | none => simp
  | some out =>
    cases c.err with
    | none => simp
    | some err =>
      by_cases htty : p.wantTty = true ∧ (ttynameLoop (c.ttyname out.2) {}).2 ≠ 0
      · simp [htty]
      · simp only [if_neg htty, Option.some.injEq, exists_eq_left', Option.isSome_some, true_and]
        have himp : p.wantTty = true → (ttynameLoop (c.ttyname out.2) {}).2 = 0 := by
          intro ht
          by_contra hrc
          exact htty ⟨ht, hrc⟩
        cases handleEnv H p with
        | error e => simp
        | ok environment => exact iff_of_true ⟨himp, environment, rfl⟩ rfl

/-- `do_fork` ends with an exception exactly when it does not get to its `fork`. -/
theorem doFork_exn_iff {H : Host} {c : StartCalls} {k : Kernel} (ref : Ref) {p : ChildProcess}
    (hp : p.state = .ready) (reg : Map ℤ ℕ) :
    (doFork H c ref p k reg).exn = none ↔ ReachesFork H c p := by
  rw [(doFork_spec c k ref hp reg).1, reachesFork_iff]

/-- What the `try` block leaves for a ready object whose name has no logger. -/
inductive Outcome (H : Host) (c : StartCalls) (ref : Ref) (p : ChildProcess) (s : Sys) :
    Sys × Option Exn → Prop
  | threw {out err : ℤ × ℤ} {b b' : PtyName} {k' : Kernel} {e : Exn} : s.kernel.Opened k' →
      (doFork H c ref p s.kernel s.handler.idForPid).exn = some e →
      Outcome H c ref p s
        ({ s with
            objs := s.objs.set ref (p.withStdio out err b b')
            loggers := s.loggers ++ [p.name]
            kernel := k' }, some e)
  | unregistered {out err : ℤ × ℤ} {b b' : PtyName} {environment : List Text} {epoll : List ℤ}
      {what : String} : c.out = some out → c.err = some err →
      (doFork H c ref p s.kernel s.handler.idForPid).exn = none →
      (c.epollOut = false ∨ c.epollErr = false) →
      Outcome H c ref p s
        ({ s.forked c ref p out err b b' environment with
            kernel := { (s.forked c ref p out err b b' environment).kernel with epoll := epoll } },
          some (.childProcess what))
  | forked {out err : ℤ × ℤ} {b b' : PtyName} {environment : List Text} :
      c.out = some out → c.err = some err →
      (doFork H c ref p s.kernel s.handler.idForPid).exn = none →
      c.epollOut = true → c.epollErr = true →
      handleEnv H (p.withStdio out err b b') = .ok environment →
      Outcome H c ref p s
        ((s.forked c ref p out err b b' environment).registered p.graphId out.1 err.1, none)

/-- **A start attempt.** -/
theorem startProgram_outcome {H : Host} {c : StartCalls} {s : Sys} (hk : s.kernel.MayStart c)
    (ref : Ref) {p : ChildProcess} (hp : p.state = .ready) (hn : p.name ∉ s.loggers) :
    Outcome H c ref p s (startProgram H c ref p s) := by
  unfold startProgram
  rw [if_neg hn]
  rcases doFork_cases (H := H) hk ref hp s.handler.idForPid with
    ⟨out, err, b, b', k', e, ho, hf⟩ | ⟨out, err, b, b', environment, hout, herr, henv, hf⟩
  · have hexn : (doFork H c ref p s.kernel s.handler.idForPid).exn = some e := by rw [hf]
    simp only [hf]
    exact .threw ho hexn
  · have hexn : (doFork H c ref p s.kernel s.handler.idForPid).exn = none := by rw [hf]; rfl
    simp only [hf, forkChild, registerWithEpoll]
    by_cases h1 : c.epollOut = true
    · by_cases h2 : c.epollErr = true
      · simp only [h1, h2, Bool.not_true, Bool.false_eq_true, if_false]
        exact .forked hout herr hexn h1 h2 henv
      · simp only [h1, h2, Bool.not_true, Bool.false_eq_true, if_false, Bool.not_false, if_true]
        exact .unregistered hout herr hexn (Or.inr (by simpa using h2))
    · simp only [h1, Bool.not_false, if_true]
      exact .unregistered hout herr hexn (Or.inl (by simpa using h1))

/-! ### The notifications -/

/-- Every condition of the object is fulfilled. -/
def met (objs : Objs) (otherProcs : Map ℕ (Option Ref)) (p : ChildProcess) : Prop :=
  ∀ c ∈ p.conditions, ChildProcess.fulfilled objs otherProcs c = true

instance (objs : Objs) (otherProcs : Map ℕ (Option Ref)) (p : ChildProcess) :
    Decidable (met objs otherProcs p) := by unfold met; infer_instance

/-- Conditions only ask for states a notification neither leaves nor reaches. -/
def Sensible (objs : Objs) : Prop :=
  ∀ (r : Ref) (p : ChildProcess), objs[r]? = some p →
    ∀ c ∈ p.conditions, c.2 = .running ∨ c.2 = .done

/-- A blocked object whose conditions are met becomes ready. -/
def ChildProcess.released (objs : Objs) (otherProcs : Map ℕ (Option Ref)) (p : ChildProcess) :
    ChildProcess :=
  if p.state = .blocked ∧ met objs otherProcs p then { p with state := .ready } else p

theorem notifyOfState_eq (objs : Objs) (otherProcs : Map ℕ (Option Ref)) (p : ChildProcess) :
    p.notifyOfState objs otherProcs = p.released objs otherProcs := by
  unfold ChildProcess.notifyOfState ChildProcess.released met
  by_cases hb : p.state = .blocked
  · simp only [hb, if_true, true_and, List.any_eq_true, Bool.not_eq_true']
    by_cases hm : ∀ c ∈ p.conditions, ChildProcess.fulfilled objs otherProcs c = true
    · have : ¬ ∃ x ∈ p.conditions, ChildProcess.fulfilled objs otherProcs x = false := by
        rintro ⟨x, hx, hf⟩
        rw [hm x hx] at hf
        cases hf
      rw [if_neg this, if_pos hm]
    · rw [if_neg hm, if_pos]
      push Not at hm
      obtain ⟨x, hx, hf⟩ := hm
      exact ⟨x, hx, by simpa using hf⟩
  · simp [hb]

/-- The objects after those in `done` were notified. -/
def notified (otherProcs : Map ℕ (Option Ref)) (done : List Ref) (objs : Objs) : Objs :=
  done.foldl (fun objs child => objs.modify child fun p => p.notifyOfState objs otherProcs) objs

/-- Notifying does not change what conditions read. -/
theorem fulfilled_congr {objs objs' : Objs} {otherProcs : Map ℕ (Option Ref)}
    (h : ∀ r : Ref, objs'[r]?.map ChildProcess.state = objs[r]?.map ChildProcess.state ∨
      (objs[r]?.map ChildProcess.state = some .blocked ∧ objs'[r]?.map ChildProcess.state = some .ready))
    {c : ℕ × ProcessState} (hc : c.2 = .running ∨ c.2 = .done) :
    ChildProcess.fulfilled objs' otherProcs c = ChildProcess.fulfilled objs otherProcs c := by
  unfold ChildProcess.fulfilled lock
  split
  · rfl
  · rename_i w hw
    cases w with
    | none => rfl
    | some r =>
      simp only [Option.bind_some]
      have := h r
      cases ho : objs[r]? with
      | none =>
        have : objs'[r]? = none := by simpa [ho] using this
        simp [this]
      | some p =>
        cases ho' : objs'[r]? with
        | none => simp [ho, ho'] at this
        | some p' =>
          simp only [ho, ho', Option.map_some, Option.some.injEq] at this
          rcases this with h1 | ⟨h1, h2⟩
          · simp [h1]
          · rcases hc with hc | hc <;> simp [h1, h2, hc]

/-- The first loop of `start_programs`: every object is judged by the states before the loop. -/
theorem notified_get {objs : Objs} (hs : Sensible objs) (otherProcs : Map ℕ (Option Ref))
    (done : List Ref) (r : Ref) :
    (notified otherProcs done objs)[r]? = objs[r]?.map fun p =>
      if r ∈ done then p.released objs otherProcs else p := by
  induction done using List.reverseRecOn generalizing r with
  | nil => simp [notified]
  | append_singleton done x ih =>
    have hstep : notified otherProcs (done ++ [x]) objs = (notified otherProcs done objs).modify x
        fun p => p.notifyOfState (notified otherProcs done objs) otherProcs := by
      simp [notified]
    rw [hstep, List.getElem?_modify, ih r]
    cases hr : objs[r]? with
    | none => simp
    | some p =>
      simp only [Option.map_some, Option.map_eq_map, Option.some.injEq]
      have hcong : ∀ c ∈ p.conditions, ChildProcess.fulfilled (notified otherProcs done objs) otherProcs c
          = ChildProcess.fulfilled objs otherProcs c := by
        intro c hc
        refine fulfilled_congr (fun i => ?_) (hs r p hr c hc)
        rw [ih i]
        cases hi : objs[i]? with
        | none => simp
        | some q =>
          simp only [Option.map_some, Option.some.injEq, ChildProcess.released]
          split
          · split
            · rename_i hq
              exact Or.inr ⟨hq.1, rfl⟩
            · exact Or.inl rfl
          · exact Or.inl rfl
      by_cases hx : x = r
      · subst hx
        simp only [if_true, List.mem_append, List.mem_singleton, or_true]
        rw [notifyOfState_eq]
        have hmet : met (notified otherProcs done objs) otherProcs p ↔ met objs otherProcs p :=
          forall_congr' fun c => forall_congr' fun hc => by rw [hcong c hc]
        by_cases hd : x ∈ done
        · simp only [hd, if_true, ChildProcess.released]
          by_cases hb : p.state = .blocked ∧ met objs otherProcs p
          · simp [hb]
          · rw [if_neg hb, if_neg]
            exact fun h => hb ⟨h.1, hmet.mp h.2⟩
        · simp only [hd, if_false, ChildProcess.released, hmet]
      · have hx' : ¬ r = x := fun h => hx h.symm
        simp [hx, hx']

/-- **The notifications** of one call of `start_programs`. -/
theorem notifyAll_get {s : Sys} (hs : Sensible s.objs) (r : Ref) :
    (notifyAll s).objs[r]? = s.objs[r]?.map fun p =>
      if r ∈ s.handler.allObjs then p.released s.objs s.handler.objForId else p :=
  notified_get hs s.handler.objForId s.handler.allObjs r

end Scinit
