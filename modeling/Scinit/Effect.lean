/-
# What a step does

The step function once more, as a relation with one case for each thing that can
happen in a state whose tables are right: the lookups that would miss, throw or
use a null pointer are gone, and each case says the state it leaves. Every
later proof about steps is by cases on `Effect`.

Key definitions: `Effect`.
Key theorems: `step_effect`, `strip_eq`.
-/
import Scinit.Tables

namespace Scinit

/-- The level the lines of a stream are logged at. -/
def FDType.level : FDType → Level
  | .stdout => .info
  | .stderr => .warn

/-- The state after `setup_signal_handlers`. -/
def Sys.setUp (s : Sys) (signalFd epollFd : ℤ) : Sys :=
  { s with
    kernel := { s.kernel with
      mask := [sigChld, sigInt, sigQuit]
      fds := epollFd :: signalFd :: s.kernel.fds
      epoll := signalFd :: s.kernel.epoll }
    handler := { s.handler with signalFd := signalFd, epollFd := epollFd }
    pc := .notify .first }

/-- The state after the child `pid` of the object `id` is reaped. -/
def Sys.reaped (s : Sys) (pid rc : ℤ) (id : ℕ) : Sys :=
  { s with
    objs := s.objs.modify id (·.handleProcessEvent .exit rc)
    kernel := s.kernel.reap pid
    handler := { s.handler with
      idForPid := s.handler.idForPid.erase pid
      numberOfRunningProcs := s.handler.numberOfRunningProcs - 1 } }

theorem Sys.reaped_objs {s : Sys} {id : ℕ} {p : ChildProcess} (hp : s.objs[id]? = some p) (pid rc : ℤ) :
    (s.reaped pid rc id).objs = s.objs.set id (p.handleProcessEvent .exit rc) := modify_eq_set hp _

/-- The state after the last writer of a descriptor is gone. -/
def Sys.hungUp (s : Sys) (fd : ℤ) (id : ℕ) (num : UInt32) : Sys :=
  { s with
    kernel := s.kernel.epollDel fd
    handler := { s.handler with
      idForFd := s.handler.idForFd.erase fd
      fdType := s.handler.fdType.erase fd
      numFdForId := s.handler.numFdForId.insert id num } }

inductive Effect (H : Host) (s : Sys) : Label → Sys → Prop
  | setup {c : SetupCalls} {signalFd epollFd : ℤ} : s.pc = .setup → s.kernel.MaySetup c →
      c.signalfd = some signalFd → c.epollCreate = some epollFd →
      Effect H s (.setup c) (s.setUp signalFd epollFd)
  | setupFailed {c : SetupCalls} {mask : List ℕ} {fds : List ℤ} {signalFd epollFd : ℤ} :
      s.pc = .setup → s.kernel.fds ⊆ fds →
      Effect H s (.setup c) { s with
        kernel := { s.kernel with mask := mask, fds := fds }
        handler := { s.handler with signalFd := signalFd, epollFd := epollFd }
        pc := .thrown .processHandler }
  | notify {site : Site} : s.pc = .notify site →
      Effect H s .notify { notifyAll s with pc := .starting site s.handler.allObjs }
  | skipped {c : StartCalls} {site : Site} {ref : Ref} {todo : List Ref} :
      s.pc = .starting site (ref :: todo) →
      (∀ p, s.objs[ref]? = some p → p.state = .ready → p.name ∈ s.loggers) →
      Effect H s (.start c) { s with pc := .starting site todo }
  | threw {c : StartCalls} {site : Site} {ref : Ref} {todo : List Ref} {p : ChildProcess}
      {out err : ℤ × ℤ} {b b' : PtyName} {k : Kernel} {pc : Pc} :
      s.pc = .starting site (ref :: todo) → s.objs[ref]? = some p → p.state = .ready →
      p.name ∉ s.loggers → s.kernel.Opened k → pc = .starting site todo ∨ (∃ e, pc = .thrown e) →
      (doFork H c ref p s.kernel s.handler.idForPid).exn ≠ none →
      Effect H s (.start c) { s with
        objs := s.objs.set ref (p.withStdio out err b b')
        loggers := s.loggers ++ [p.name]
        kernel := k
        pc := pc }
  | unregistered {c : StartCalls} {site : Site} {ref : Ref} {todo : List Ref} {p : ChildProcess}
      {out err : ℤ × ℤ} {b b' : PtyName} {environment : List Text} {epoll : List ℤ} {e : Exn} :
      s.pc = .starting site (ref :: todo) → s.objs[ref]? = some p → p.state = .ready →
      p.name ∉ s.loggers → s.kernel.MayStart c → c.out = some out → c.err = some err →
      (doFork H c ref p s.kernel s.handler.idForPid).exn = none →
      c.epollOut = false ∨ c.epollErr = false →
      Effect H s (.start c) { s.forked c ref p out err b b' environment with
        kernel := { (s.forked c ref p out err b b' environment).kernel with epoll := epoll }
        pc := .thrown e }
  | forked {c : StartCalls} {site : Site} {ref : Ref} {todo : List Ref} {p : ChildProcess}
      {out err : ℤ × ℤ} {b b' : PtyName} {environment : List Text} :
      s.pc = .starting site (ref :: todo) → s.objs[ref]? = some p → p.state = .ready →
      p.name ∉ s.loggers → s.kernel.MayStart c → c.out = some out → c.err = some err →
      (doFork H c ref p s.kernel s.handler.idForPid).exn = none →
      c.epollOut = true → c.epollErr = true →
      handleEnv H (p.withStdio out err b b') = .ok environment →
      Effect H s (.start c)
        { (s.forked c ref p out err b b' environment).registered p.graphId out.1 err.1 with
          pc := .starting site todo }
  | started {site : Site} : s.pc = .starting site [] →
      Effect H s .started { s with pc := afterStart site s }
  | epollWait {batch : List Event} : s.pc = .polling →
      s.kernel.MayReportAll s.handler.signalFd batch →
      Effect H s (.epollWait batch) { s with pc := .reaping batch }
  | reap {batch : List Event} {pid rc : ℤ} {c : Child} : s.pc = .reaping batch →
      s.kernel.children[pid]? = some c → c.status = some rc →
      Effect H s (.reap pid rc) (s.reaped pid rc c.owner)
  | reapUnknown {batch : List Event} {pid rc : ℤ} : s.pc = .reaping batch →
      s.kernel.children[pid]? = none → s.handler.idForPid[pid]? = none →
      Effect H s (.reap pid rc) s
  | reaped {batch : List Event} : s.pc = .reaping batch →
      Effect H s .reaped { s with pc := .handling batch }
  | signalled {c : EventCalls} {e : Event} {batch : List Event} {n : ℕ} :
      s.pc = .handling (e :: batch) → e.fd = s.handler.signalFd → c.signal = some n →
      n ∈ s.kernel.pending →
      Effect H s (.event c)
        { signalReceived n { s with kernel := { s.kernel with pending := s.kernel.pending.erase n } } with
          pc := .handling batch }
  | output {c : EventCalls} {e : Event} {batch : List Event} {id : ℕ} {p : ChildProcess}
      {type : FDType} {lines : List Line} :
      s.pc = .handling (e :: batch) → e.fd ≠ s.handler.signalFd → e.epollin = true →
      s.kernel.MayAnswer e.fd c →
      s.handler.idForFd[e.fd]? = some id → s.objs[id]? = some p → s.handler.fdType[e.fd]? = some type →
      (lines = [] ∨ ∃ text, lines = [⟨p.name, type.level, text⟩]) →
      Effect H s (.event c) { s with
        kernel := s.kernel.readBytes e.fd (c.nread.getD 0)
        output := s.output ++ lines
        pc := .handling batch }
  | hungUp {c : EventCalls} {e : Event} {batch : List Event} {id : ℕ} {num : UInt32} :
      s.pc = .handling (e :: batch) → e.fd ≠ s.handler.signalFd → e.epollin = false →
      s.handler.idForFd[e.fd]? = some id → s.handler.numFdForId[id]? = some num →
      c.epollDel = true →
      Effect H s (.event c) { s.hungUp e.fd id (num - 1) with pc := .handling batch }
  | eventFailed {c : EventCalls} {e : Event} {batch : List Event} :
      s.pc = .handling (e :: batch) →
      e.fd = s.handler.signalFd ∧ c.signal = none ∨ e.fd ≠ s.handler.signalFd ∧ c.epollDel = false →
      Effect H s (.event c) { s with pc := .thrown .processHandler }
  | exitTest : s.pc = .handling [] → Effect H s .exitTest { s with pc := afterBatch s }
  | act {a : Act} {k : Kernel} : s.pc.ended = false → s.kernel.act a = some k →
      Effect H s (.act a) { s with kernel := k }
  | signal {n : ℕ} : s.pc.ended = false → s.pc ≠ .setup → 1 ≤ n ∧ n ≤ 64 →
      Effect H s (.signal n) (deliver H n s)

/-! ### Stripping line ends never throws -/

theorem beginOf_le_cString (buf : Text) : beginOf buf ≤ (cString buf).length := by
  induction buf with
  | nil => simp [beginOf]
  | cons c buf ih =>
    by_cases h : c = '\n'
    · subst h
      have hc : cString ('\n' :: buf) = '\n' :: cString buf := by simp [cString]
      rw [hc]
      simp only [beginOf, ne_eq, not_true_eq_false, if_false, List.length_cons]
      omega
    · simp [beginOf, h]

/-- The position `end` is left at. -/
def endOf (buf : Text) : ℤ := if buf.length = 0 then -1 else endFrom buf (beginOf buf) (buf.length - 1)

/-- Both cuts are inside of the string. -/
theorem strip_eq (buf : Text) : strip buf =
    .ok (if endOf buf < buf.length - 1 ∧ beginOf buf ≤ endOf buf then
      ((cString buf).drop (beginOf buf)).take (endOf buf - beginOf buf + 1).toNat
    else (cString buf).drop (beginOf buf)) := by
  have hfirst : (if 0 < beginOf buf then substr (cString buf) (beginOf buf) (cString buf).length
      else .ok (cString buf)) = .ok ((cString buf).drop (beginOf buf)) := by
    split
    · have hle := beginOf_le_cString buf
      rw [substr, if_neg (by omega), List.take_of_length_le (by simp)]
    · rename_i h
      rw [Nat.eq_zero_of_not_pos h, List.drop_zero]
  have hsecond : ∀ (str : Text) (n : ℕ), substr str 0 n = .ok (str.take n) := by
    intro str n
    rw [substr, if_neg (Nat.not_lt_zero _), List.drop_zero]
  unfold strip
  simp only [hfirst, hsecond]
  exact (apply_ite Except.ok _ _ _).symm

theorem strip_ok (buf : Text) : ∃ str, strip buf = .ok str := ⟨_, strip_eq buf⟩

/-! ### The cases of the step function -/

section

variable {base : Objs} {H : Host} {s s' : Sys}

theorem effect_setup {c : SetupCalls} (h : step H s (.setup c) = some s') :
    Effect H s (.setup c) s' := by
  simp only [step, Option.ite_none_right_eq_some, Option.some.injEq] at h
  obtain ⟨⟨hpc, hk⟩, rfl⟩ := h
  unfold setupSignalHandlers
  by_cases h1 : c.sigprocmask = true
  · simp only [h1, Bool.not_true, Bool.false_eq_true, if_false]
    cases h2 : c.signalfd with
    | none =>
      exact .setupFailed hpc (List.Subset.refl s.kernel.fds)
    | some signalFd =>
      cases h3 : c.epollCreate with
      | none => exact .setupFailed hpc (List.subset_cons_self _ _)
      | some epollFd =>
        by_cases h4 : c.epollCtl = true
        · simp only [h4, Bool.not_true, Bool.false_eq_true, if_false]
          exact .setup hpc hk h2 h3
        · simp only [h4, Bool.not_false, if_true]
          exact .setupFailed hpc fun fd hfd => List.mem_cons_of_mem _ (List.mem_cons_of_mem _ hfd)
  · simp only [h1, Bool.not_false, if_true]
    exact .setupFailed hpc (List.Subset.refl s.kernel.fds)

theorem effect_start {c : StartCalls} (h : step H s (.start c) = some s') :
    Effect H s (.start c) s' := by
  simp only [step] at h
  split at h
  swap
  · cases h
  rename_i site ref todo hpc
  simp only [Option.ite_none_right_eq_some, Option.some.injEq] at h
  obtain ⟨hk, rfl⟩ := h
  have hskip : (∀ p, s.objs[ref]? = some p → p.state = .ready → p.name ∈ s.loggers) →
      Effect H s (.start c) (Sys.goto (s, none) (.starting site todo)) := fun h => .skipped hpc h
  unfold startTurn
  cases hp : s.objs[ref]? with
  | none => exact hskip fun p hp' _ => by rw [hp] at hp'; cases hp'
  | some p =>
    by_cases hr : p.state = .ready
    · simp only [ChildProcess.canStartNow, hr, decide_true, if_true]
      by_cases hn : p.name ∈ s.loggers
      · have : startProgram H c ref p s =
            (s, some (.stdException "logger with that name already exists")) := by
          rw [startProgram, if_pos hn]
        simp only [this, Exn.isStdException, if_true]
        exact hskip fun p' hp' _ => by
          rw [hp] at hp'
          cases hp'
          exact hn
      · have ho := startProgram_outcome (H := H) hk ref hr hn
        generalize startProgram H c ref p s = r at ho
        cases ho with
        | @threw out err b b' k' e hk' hexn =>
          have he : (doFork H c ref p s.kernel s.handler.idForPid).exn ≠ none := by
            rw [hexn]
            exact Option.some_ne_none _
          simp only
          by_cases hstd : e.isStdException = true
          · rw [if_pos hstd]
            exact .threw hpc hp hr hn hk' (Or.inl rfl) he
          · rw [if_neg hstd]
            exact .threw hpc hp hr hn hk' (Or.inr ⟨e, rfl⟩) he
        | unregistered h1 h2 h3 h4 =>
          simp only [Exn.isStdException, Bool.false_eq_true, if_false]
          exact .unregistered hpc hp hr hn hk h1 h2 h3 h4
        | forked h1 h2 h3 h4 h5 h6 => exact .forked hpc hp hr hn hk h1 h2 h3 h4 h5 h6
    · simp only [ChildProcess.canStartNow, hr, decide_false, Bool.false_eq_true, if_false]
      exact hskip fun p' hp' hr' => by
        rw [hp] at hp'
        cases hp'
        exact absurd hr' hr

theorem effect_reap (hi : Ids base s) {pid rc : ℤ} (h : step H s (.reap pid rc) = some s') :
    Effect H s (.reap pid rc) s' := by
  simp only [step] at h
  split at h
  swap
  · cases h
  rename_i batch hpc
  simp only [Option.ite_none_right_eq_some, Option.some.injEq] at h
  obtain ⟨⟨hpos, hk⟩, rfl⟩ := h
  cases hc : s.kernel.children[pid]? with
  | none =>
    have hid := hi.unlisted hpos hc
    have hreap : s.kernel.reap pid = s.kernel := by
      have : s.kernel.children.erase pid = s.kernel.children := by
        refine Std.ExtTreeMap.ext_getElem? fun q => ?_
        rw [Std.ExtTreeMap.getElem?_erase]
        by_cases he : pid = q
        · subst he
          simp [hc]
        · simp [he]
      simp [Kernel.reap, this]
    have : Effect H s (.reap pid rc) s := .reapUnknown hpc hc hid
    simpa [Sys.goto, sigchldReceived, hid, hreap, ← hpc] using this
  | some c =>
    have hst : c.status = some rc := by simpa [hc] using hk
    obtain ⟨-, hid⟩ := hi.child pid c hc
    obtain ⟨p, hp, -⟩ := hi.pidOwner pid c.owner hid
    have hlt := hi.lt_of_get hp
    have hobj : s.handler.objForId.insertIfNew c.owner none = s.handler.objForId :=
      Std.ExtTreeMap.ext_getElem? fun q => hi.insertIfNew_objForId hlt q
    have := Effect.reap (H := H) hpc hc hst
    simpa [Sys.goto, sigchldReceived, hid, hi.sigForId, hlt, hobj, Sys.reaped, ← hpc] using this

/-- Output is put out by the logger of the process whose descriptor it came from. -/
theorem handleChildOutput_eq (hi : Ids base s) (hf : Fds s) {fd : ℤ} {id : ℕ}
    (hid : s.handler.idForFd[fd]? = some id) : ∃ p type, s.objs[id]? = some p ∧
      s.handler.fdType[fd]? = some type ∧
      ∀ (str : Text) (k : Kernel), handleChildOutput fd str { s with kernel := k } =
        ({ s with kernel := k, output := s.output ++ [⟨p.name, type.level, str⟩] }, none) := by
  obtain ⟨name, out, err, hs, hfd⟩ := hf.stream fd id hid
  obtain ⟨p, hp, -, he⟩ := streamsAt_eq_some.mp hs
  obtain ⟨hname, -⟩ := hf.opened id name out err hs
  simp only [Prod.mk.injEq] at he
  obtain ⟨rfl, rfl, rfl⟩ := he
  have hlt := hi.lt_of_get hp
  obtain ⟨type, htype⟩ : ∃ type, s.handler.fdType[fd]? = some type := by
    rcases hfd with ⟨-, h⟩ | ⟨-, h⟩
    · exact ⟨_, h⟩
    · exact ⟨_, h⟩
  refine ⟨p, type, hp, htype, fun str k => ?_⟩
  simp only [handleChildOutput, hid, hi.objForId, hlt, if_true, lock, Option.bind_some, hp, htype, hname]
  cases type <;> rfl

theorem effect_event (hi : Ids base s) (hf : Fds s) {c : EventCalls}
    (h : step H s (.event c) = some s') : Effect H s (.event c) s' := by
  simp only [step] at h
  split at h
  swap
  · cases h
  rename_i e batch hpc
  simp only [Option.ite_none_right_eq_some, Option.some.injEq] at h
  obtain ⟨hk, rfl⟩ := h
  have hmem : e ∈ s.pc.batch := by simp [hpc, Pc.batch]
  obtain ⟨-, hflag, hsig⟩ := hf.batch.2 e hmem
  unfold eventReceived
  by_cases hfd : e.fd = s.handler.signalFd
  · have hin : e.epollin = true := by
      rcases hflag with h | h
      · exact h
      · rw [hsig hfd] at h
        cases h
    rw [if_pos hin, if_pos hfd]
    cases hn : c.signal with
    | none => exact .eventFailed hpc (Or.inl ⟨hfd, hn⟩)
    | some n => exact .signalled hpc hfd hn (hk.1 n hn)
  · obtain ⟨id, hid⟩ := hf.of_batch hmem hfd
    by_cases hin : e.epollin = true
    · rw [if_pos hin, if_neg hfd]
      obtain ⟨p, type, hp, htype, hout⟩ := handleChildOutput_eq hi hf hid
      obtain ⟨str, hstr⟩ := strip_ok ((s.kernel.unread e.fd).take (c.nread.getD 0))
      simp only [outputReceived, hstr]
      have heff : ∀ lines : List Line, (lines = [] ∨ ∃ text, lines = [⟨p.name, type.level, text⟩]) →
          Effect H s (.event c) { s with
            kernel := s.kernel.readBytes e.fd (c.nread.getD 0)
            output := s.output ++ lines
            pc := .handling batch } :=
        fun lines hl => .output hpc hfd hin hk hid hp htype hl
      split
      · simpa [Sys.goto] using heff [] (Or.inl rfl)
      · rw [hout]
        exact heff _ (Or.inr ⟨str, rfl⟩)
    · have hup : e.epollhup = true := hflag.resolve_left hin
      rw [if_neg hin, if_pos hup]
      obtain ⟨name, out, err, hs, -⟩ := hf.stream e.fd id hid
      obtain ⟨num, hnum, -⟩ := hf.num id name out err hs
      obtain ⟨p, hp, -, -⟩ := streamsAt_eq_some.mp hs
      have hlt := hi.lt_of_get hp
      have hobj : s.handler.objForId.insertIfNew id none = s.handler.objForId :=
        Std.ExtTreeMap.ext_getElem? fun q => hi.insertIfNew_objForId hlt q
      unfold hangupReceived
      by_cases hdel : c.epollDel = true
      · have := Effect.hungUp (H := H) hpc hfd (by simpa using hin) hid hnum hdel
        simp only [hdel, Bool.not_true, Bool.false_eq_true, if_false, hid, Option.getD_some, hnum, hobj,
          hi.objForId, hlt, if_true, lock, Option.bind_some, hp]
        split <;> simpa [Sys.goto, Sys.hungUp] using this
      · simp only [hdel, Bool.not_false, if_true]
        exact .eventFailed hpc (Or.inr ⟨hfd, by simpa using hdel⟩)

/-- **What a step does**, in a state whose tables are right. -/
theorem step_effect (hi : Ids base s) (hf : Fds s) {l : Label} (h : step H s l = some s') :
    Effect H s l s' := by
  cases l with
  | setup c => exact effect_setup h
  | notify =>
    simp only [step] at h
    split at h
    · rename_i site hpc
      cases h
      exact .notify hpc
    · cases h
  | start c => exact effect_start h
  | started =>
    simp only [step] at h
    split at h
    · rename_i site hpc
      cases h
      exact .started hpc
    · cases h
  | epollWait batch =>
    simp only [step, Option.ite_none_right_eq_some, Option.some.injEq] at h
    obtain ⟨⟨hpc, hk⟩, rfl⟩ := h
    exact .epollWait hpc hk
  | reap pid rc => exact effect_reap hi h
  | reaped =>
    simp only [step] at h
    split at h
    · rename_i batch hpc
      cases h
      exact .reaped hpc
    · cases h
  | event c => exact effect_event hi hf h
  | exitTest =>
    simp only [step] at h
    split at h
    · rename_i hpc
      cases h
      exact .exitTest hpc
    · cases h
  | act a =>
    simp only [step] at h
    split at h
    · cases h
    · rename_i hpc
      obtain ⟨k, hk, rfl⟩ := Option.map_eq_some_iff.mp h
      exact .act (by simpa using hpc) hk
  | signal n =>
    simp only [step, Option.ite_none_right_eq_some, Option.some.injEq] at h
    obtain ⟨⟨h1, h2, h3⟩, rfl⟩ := h
    exact .signal h1 h2 h3

end

end Scinit
