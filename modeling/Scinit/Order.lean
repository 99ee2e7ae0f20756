/-
# The order of the program list

`start_programs` as a function of the state, with the answers of each object's
attempt. The order of the list would not matter if `catch (std::exception&)`
took what an attempt throws: each turn only changes its own object and the
counter. But a `ChildProcessException` is not taken, it ends the call, and what
comes later in the list is not started (`start_programs_order_iff`).

Key definitions: `startLoop`, `startPrograms`, `forkedIn`, `SameStart`.
Key theorems: `startLoop_of_exec`, `startLoop_spec`, `start_programs_order_iff`.
-/
import Scinit.Attempts
import Scinit.Lib.Through

namespace Scinit

open Transition

variable {H : Host} {progs : List Program} {tr : List (Sys × Label)} {s s' t : Sys} {r x : Ref}
  {c : StartCalls} {p : ChildProcess} {calls calls₁ calls₂ : Ref → StartCalls} {l l₁ l₂ : List Ref}

/-! ### The call -/

/-- The second loop of `start_programs`, up to an exception that it does not catch. -/
def startLoop (H : Host) (calls : Ref → StartCalls) : List Ref → Sys → Sys × Option Exn
  | [], s => (s, none)
  | ref :: todo, s =>
    match startTurn H (calls ref) ref s with
    | (s, some e) => (s, some e)
    | (s, none) => startLoop H calls todo s

/-- `start_programs`. -/
def startPrograms (H : Host) (calls : Ref → StartCalls) (s : Sys) : Sys × Option Exn :=
  startLoop H calls s.handler.allObjs (notifyAll s)

/-- What the loop forks, in order. -/
def forkedIn (H : Host) (calls : Ref → StartCalls) : List Ref → Sys → List Ref
  | [], _ => []
  | ref :: todo, s =>
    (forkOf H { s with pc := .starting .head (ref :: todo) } (.start (calls ref))).toList ++
      match startTurn H (calls ref) ref s with
      | (_, some _) => []
      | (s, none) => forkedIn H calls todo s

/-- What `start_programs` forks. -/
def forkedBy (H : Host) (calls : Ref → StartCalls) (s : Sys) : List Ref :=
  forkedIn H calls s.handler.allObjs (notifyAll s)

/-- The state with the program list in another order. -/
def Sys.withOrder (s : Sys) (l : List Ref) : Sys := { s with handler := { s.handler with allObjs := l } }

/-- A turn does not look at the place in the event loop. -/
theorem startTurn_pc (pc : Pc) : startTurn H c r { s with pc := pc } =
    ({ (startTurn H c r s).1 with pc := pc }, (startTurn H c r s).2) := by
  unfold startTurn
  dsimp only
  cases s.objs[r]? with
  | none => rfl
  | some p =>
    dsimp only
    split
    · have hsp : startProgram H c r p { s with pc := pc } =
          ({ (startProgram H c r p s).1 with pc := pc }, (startProgram H c r p s).2) := by
        unfold startProgram
        dsimp only
        split
        · rfl
        · cases (doFork H c r p s.kernel s.handler.idForPid).exn with
          | some e => rfl
          | none =>
            dsimp only
            cases (registerWithEpoll c (doFork H c r p s.kernel s.handler.idForPid).self
              (doFork H c r p s.kernel s.handler.idForPid).kernel s.handler.idForFd s.handler.fdType).exn <;> rfl
      rw [hsp]
      rcases startProgram H c r p s with ⟨s₁, _ | e⟩
      · rfl
      · dsimp only
        split <;> rfl
    · rfl

/-- **The loop is that of the event loop**: where its attempts are possible one
after the other, they lead where `startLoop` says. -/
theorem startLoop_of_exec {site : Site} : ∀ {todo : List Ref} {s : Sys},
    exec (step H) { s with pc := .starting site todo } (todo.map fun ref => .start (calls ref)) = some t →
    Sys.goto (startLoop H calls todo s) (.starting site []) = t
  | [], s, h => by
    simp only [List.map_nil, exec, Option.some.injEq] at h
    exact h
  | ref :: todo, s, h => by
    simp only [List.map_cons, exec, step, startTurn_pc, Option.bind_eq_some_iff, Option.ite_none_right_eq_some,
      Option.some.injEq] at h
    obtain ⟨m, ⟨-, rfl⟩, h⟩ := h
    unfold startLoop
    generalize startTurn H (calls ref) ref s = q at h ⊢
    rcases q with ⟨s₁, _ | e⟩
    · exact startLoop_of_exec h
    · -- after an exception no attempt is possible
      cases todo with
      | nil => exact Option.some.inj h
      | cons ref' todo => cases h

/-! ### One turn -/

/-- The object, if it is ready and its name has no logger. -/
def startable (s : Sys) (r : Ref) : Option ChildProcess :=
  s.objs[r]?.filter fun p => p.canStartNow && decide (p.name ∉ s.loggers)

/-- How an attempt ends. -/
inductive Ending
  | started
  | threwBefore
  | threwAfter
  deriving DecidableEq

/-- How the attempt of an object ends, with these answers. -/
def ending (H : Host) (c : StartCalls) (p : ChildProcess) : Ending :=
  if ReachesFork H c p then
    if c.epollOut = true ∧ c.epollErr = true then .started else .threwAfter
  else .threwBefore

theorem ending_eq_threwBefore : ending H c p = .threwBefore ↔ ¬ ReachesFork H c p := by
  unfold ending
  by_cases hf : ReachesFork H c p
  · rw [if_pos hf]
    split <;> simp [hf]
  · simp [hf]

theorem ending_eq_started :
    ending H c p = .started ↔ ReachesFork H c p ∧ c.epollOut = true ∧ c.epollErr = true := by
  unfold ending
  by_cases hf : ReachesFork H c p
  · rw [if_pos hf]
    split
    · rename_i he
      simp [hf, he]
    · rename_i he
      simp [hf, he]
  · simp [hf]

/-- Its turn forks the object. -/
def forks (H : Host) (calls : Ref → StartCalls) (s : Sys) (r : Ref) : Bool :=
  (startable s r).any fun p => ending H (calls r) p ≠ .threwBefore

/-- Its turn starts the object. -/
def succeeds (H : Host) (calls : Ref → StartCalls) (s : Sys) (r : Ref) : Bool :=
  (startable s r).any fun p => ending H (calls r) p = .started

/-- The attempt of the object throws what is not caught. -/
def escapes (H : Host) (calls : Ref → StartCalls) (s : Sys) (r : Ref) : Bool :=
  (startable s r).any fun p => (attemptExn H (calls r) p).any fun e => !e.isStdException

theorem startable_eq_some : startable s r = some p ↔
    s.objs[r]? = some p ∧ p.state = .ready ∧ p.name ∉ s.loggers := by
  unfold startable
  simp [Option.filter_eq_some_iff, ChildProcess.canStartNow]

/-- A turn of an object that cannot be started does nothing. -/
theorem startTurn_idle (h : startable s r = none) : startTurn H c r s = (s, none) := by
  unfold startTurn
  cases hp : s.objs[r]? with
  | none => rfl
  | some p =>
    dsimp only
    by_cases hr : p.canStartNow = true
    · have hn : p.name ∈ s.loggers := by
        by_contra hn
        rw [startable, hp] at h
        simp [hr, hn] at h
      rw [if_pos hr, startProgram_logged hn]
      rfl
    · rw [if_neg hr]

/-- What an attempt does whose name is free. -/
theorem startProgram_objs (hn : p.name ∉ s.loggers) : (startProgram H c r p s).1.objs =
    s.objs.set r (doFork H c r p s.kernel s.handler.idForPid).self := by
  unfold startProgram
  rw [if_neg hn]
  dsimp only
  cases (doFork H c r p s.kernel s.handler.idForPid).exn with
  | some e => rfl
  | none =>
    dsimp only
    split <;> rfl

theorem startProgram_loggers (hn : p.name ∉ s.loggers) :
    (startProgram H c r p s).1.loggers = s.loggers ++ [p.name] := by
  unfold startProgram
  rw [if_neg hn]
  dsimp only
  cases (doFork H c r p s.kernel s.handler.idForPid).exn with
  | some e => rfl
  | none =>
    dsimp only
    split <;> rfl

theorem startProgram_running (hn : p.name ∉ s.loggers) :
    ((startProgram H c r p s).2 = none →
      (startProgram H c r p s).1.handler.numberOfRunningProcs = s.handler.numberOfRunningProcs + 1) ∧
    ((startProgram H c r p s).2 ≠ none →
      (startProgram H c r p s).1.handler.numberOfRunningProcs = s.handler.numberOfRunningProcs) := by
  unfold startProgram
  rw [if_neg hn]
  dsimp only
  cases (doFork H c r p s.kernel s.handler.idForPid).exn with
  | some e => exact ⟨fun h => absurd h (Option.some_ne_none _), fun _ => rfl⟩
  | none =>
    dsimp only
    split
    · exact ⟨fun h => absurd h (Option.some_ne_none _), fun _ => rfl⟩
    · exact ⟨fun _ => rfl, fun h => absurd rfl h⟩

/-- The turn of a ready object is its attempt, whose exception may be caught. -/
theorem startTurn_ready (hp : s.objs[r]? = some p) (hr : p.state = .ready) : startTurn H c r s =
    ((startProgram H c r p s).1, (startProgram H c r p s).2.filter fun e => !e.isStdException) := by
  unfold startTurn
  rw [hp]
  simp only [ChildProcess.canStartNow, hr, decide_true, if_true]
  rcases startProgram H c r p s with ⟨s₁, _ | e⟩
  · rfl
  · dsimp only
    cases he : e.isStdException <;> simp [Option.filter, he]

/-- **A turn** of an object that can be started: its state, its logger and the
counter change, and nothing else that another turn looks at. -/
theorem startTurn_startable (h : startable s r = some p) :
    (∃ q : ChildProcess, q.name = p.name ∧
      q.state = (if ending H c p = .threwBefore then .ready else .running) ∧
      (startTurn H c r s).1.objs = s.objs.set r q) ∧
    (startTurn H c r s).1.loggers = s.loggers ++ [p.name] ∧
    (startTurn H c r s).1.handler.numberOfRunningProcs =
      s.handler.numberOfRunningProcs + (if ending H c p = .started then 1 else 0) ∧
    (startTurn H c r s).2 = (attemptExn H c p).filter fun e => !e.isStdException := by
  obtain ⟨hp, hr, hn⟩ := startable_eq_some.mp h
  have hexn := startProgram_exn (H := H) (c := c) (r := r) hr hn
  obtain ⟨hfork, hname, hstate⟩ := doFork_spec (H := H) c s.kernel r hr s.handler.idForPid
  rw [startTurn_ready hp hr]
  refine ⟨⟨(doFork H c r p s.kernel s.handler.idForPid).self, hname, ?_, startProgram_objs hn⟩,
    startProgram_loggers hn, ?_, by rw [hexn]⟩
  · rw [hstate]
    by_cases hf : ReachesFork H c p
    · rw [if_pos (reachesFork_iff.mp hf), if_neg fun he => ending_eq_threwBefore.mp he hf]
    · rw [if_neg fun he => hf (reachesFork_iff.mpr he), if_pos (ending_eq_threwBefore.mpr hf)]
  · have hstarted : ending H c p = .started ↔ (startProgram H c r p s).2 = none := by
      rw [hexn, attemptExn_eq_none, ending_eq_started]
    obtain ⟨hcounted, hnot⟩ := startProgram_running (H := H) (c := c) (r := r) hn
    by_cases hs : ending H c p = .started
    · rw [if_pos hs]
      exact hcounted (hstarted.mp hs)
    · rw [if_neg hs, add_zero]
      exact hnot fun h => hs (hstarted.mpr h)

/-- The names of the objects. -/
def Sys.names (s : Sys) : List Text := s.objs.map ChildProcess.name

theorem turn_names : (startTurn H c x s).1.names = s.names := by
  cases h : startable s x with
  | none => rw [startTurn_idle h]
  | some p =>
    obtain ⟨⟨q, hq, -, hobjs⟩, -⟩ := startTurn_startable (H := H) (c := c) h
    obtain ⟨hp, -⟩ := startable_eq_some.mp h
    have hname : s.names[x]? = some p.name := by
      rw [Sys.names, List.getElem?_map, hp, Option.map_some]
    obtain ⟨hlt, hget⟩ := List.getElem?_eq_some_iff.mp hname
    show (startTurn H c x s).1.objs.map ChildProcess.name = s.names
    rw [hobjs, List.map_set, hq, ← hget]
    exact List.set_getElem_self hlt

/-- A turn leaves what another object needs to be started. -/
theorem turn_other (hnames : s.names.Nodup) (hne : r ≠ x) :
    startable (startTurn H c x s).1 r = startable s r := by
  cases h : startable s x with
  | none => rw [startTurn_idle h]
  | some p =>
    obtain ⟨⟨q, -, -, hobjs⟩, hlog, -⟩ := startTurn_startable (H := H) (c := c) h
    obtain ⟨hp, -⟩ := startable_eq_some.mp h
    unfold startable
    rw [hobjs, List.getElem?_set_ne (Ne.symm hne), hlog]
    cases hr : s.objs[r]? with
    | none => rfl
    | some pr =>
      have hdiff : pr.name ≠ p.name := by
        intro he
        have hget : ∀ {i : Ref} {o : ChildProcess}, s.objs[i]? = some o → s.names[i]? = some o.name :=
          fun {i o} ho => by rw [Sys.names, List.getElem?_map, ho, Option.map_some]
        have hlt := (List.getElem?_eq_some_iff.mp (hget hr)).1
        exact hne ((List.getElem?_inj hlt hnames).mp ((hget hr).trans (he ▸ (hget hp).symm)))
      simp [Option.filter, hdiff]

/-- What a turn makes of the states. -/
theorem turn_stateOf : (startTurn H (calls x) x s).1.stateOf r =
    if r = x ∧ forks H calls s x = true then some .running else s.stateOf r := by
  cases h : startable s x with
  | none =>
    have hno : forks H calls s x = false := by simp [forks, h]
    rw [startTurn_idle h, hno]
    simp
  | some p =>
    obtain ⟨⟨q, -, hstate, hobjs⟩, -⟩ := startTurn_startable (H := H) (c := calls x) h
    obtain ⟨hp, hr, -⟩ := startable_eq_some.mp h
    have hlt := (List.getElem?_eq_some_iff.mp hp).1
    have hforks : forks H calls s x = decide (ending H (calls x) p ≠ .threwBefore) := by
      simp [forks, h]
    unfold Sys.stateOf
    rw [hobjs, hforks]
    by_cases hx : r = x
    · subst hx
      rw [List.getElem?_set_self hlt, Option.map_some, hstate, hp, Option.map_some, hr]
      by_cases hb : ending H (calls r) p = .threwBefore
      · simp [hb]
      · simp [hb]
    · rw [List.getElem?_set_ne (Ne.symm hx)]
      simp [hx]

/-- What a turn makes of the counter. -/
theorem turn_running : (startTurn H (calls x) x s).1.handler.numberOfRunningProcs =
    s.handler.numberOfRunningProcs + if succeeds H calls s x = true then 1 else 0 := by
  cases h : startable s x with
  | none => simp [startTurn_idle h, succeeds, h]
  | some p =>
    obtain ⟨-, -, hnum, -⟩ := startTurn_startable (H := H) (c := calls x) h
    rw [hnum]
    simp [succeeds, h]

/-- A turn ends the call if its attempt throws what is not caught. -/
theorem turn_exn : (startTurn H (calls x) x s).2.isSome = escapes H calls s x := by
  cases h : startable s x with
  | none => simp [startTurn_idle h, escapes, h]
  | some p =>
    obtain ⟨-, -, -, hexn⟩ := startTurn_startable (H := H) (c := calls x) h
    rw [hexn, escapes, h, Option.any_some]
    cases attemptExn H (calls x) p with
    | none => rfl
    | some e => cases he : e.isStdException <;> simp [Option.filter, he]

theorem turn_forkOf {todo : List Ref} :
    (forkOf H { s with pc := .starting .head (x :: todo) } (.start (calls x))).toList =
      if forks H calls s x = true then [x] else [] := by
  cases hp : s.objs[x]? with
  | none =>
    have hno : forks H calls s x = false := by simp [forks, startable, hp]
    rw [hno]
    simp [forkOf, hp]
  | some p =>
    rw [forkOf_start (s := { s with pc := .starting .head (x :: todo) }) rfl hp]
    dsimp only
    by_cases hs : p.state = .ready ∧ p.name ∉ s.loggers
    · have hst := startable_eq_some.mpr ⟨hp, hs.1, hs.2⟩
      have hreach := doFork_exn_iff (H := H) (c := calls x) (k := s.kernel) x hs.1 s.handler.idForPid
      have hforks : forks H calls s x = true ↔ ReachesFork H (calls x) p := by
        simp [forks, hst, ending_eq_threwBefore]
      by_cases hf : ReachesFork H (calls x) p
      · rw [if_pos ⟨hs.1, hs.2, hreach.mpr hf⟩, if_pos (hforks.mpr hf)]
        rfl
      · rw [if_neg fun h => hf (hreach.mp h.2.2), if_neg fun h => hf (hforks.mp h)]
        rfl
    · have hno : forks H calls s x = false := by
        have hst : startable s x = none := by
          cases h : startable s x with
          | none => rfl
          | some q =>
            obtain ⟨hq, h1, h2⟩ := startable_eq_some.mp h
            rw [hp, Option.some.injEq] at hq
            subst hq
            exact absurd ⟨h1, h2⟩ hs
        simp [forks, hst]
      rw [hno, if_neg fun h => hs ⟨h.1, h.2.1⟩]
      rfl

/-! ### The loop -/

/-- The turns the loop gets to. -/
def turns (H : Host) (calls : Ref → StartCalls) (s : Sys) (l : List Ref) : List Ref :=
  l.through (escapes H calls s)

/-- What the loop leaves, in terms of the state it begins with. -/
structure Looped (H : Host) (calls : Ref → StartCalls) (l : List Ref) (s : Sys) : Prop where
  forked : forkedIn H calls l s = (turns H calls s l).filter (forks H calls s)
  states : ∀ r, (startLoop H calls l s).1.stateOf r =
    if r ∈ (turns H calls s l).filter (forks H calls s) then some .running else s.stateOf r
  running : (startLoop H calls l s).1.handler.numberOfRunningProcs =
    s.handler.numberOfRunningProcs + ((turns H calls s l).filter (succeeds H calls s)).length

/-- What an object does in its turn can be told before the loop. -/
theorem turn_congr (hnames : s.names.Nodup) (hx : x ∉ l) : ∀ r ∈ l,
    forks H calls (startTurn H c x s).1 r = forks H calls s r ∧
    succeeds H calls (startTurn H c x s).1 r = succeeds H calls s r ∧
    escapes H calls (startTurn H c x s).1 r = escapes H calls s r := by
  intro r hr
  have hne : r ≠ x := fun he => hx (he ▸ hr)
  simp only [forks, succeeds, escapes, turn_other hnames hne, and_self]

/-- A turn that ends the call is its last. -/
theorem looped_of_escapes (hesc : escapes H calls s x = true) (l : List Ref) : Looped H calls (x :: l) s := by
  have hturns : turns H calls s (x :: l) = [x] := List.through_cons_of_stop hesc
  have hexn : (startTurn H (calls x) x s).2.isSome = true := turn_exn.trans hesc
  obtain ⟨e, he⟩ := Option.isSome_iff_exists.mp hexn
  have hturn : startTurn H (calls x) x s = ((startTurn H (calls x) x s).1, some e) := Prod.ext rfl he
  refine ⟨?_, fun r => ?_, ?_⟩
  · rw [forkedIn, turn_forkOf, hturns, hturn]
    cases hf : forks H calls s x <;> simp [hf]
  · rw [startLoop, hturn, hturns]
    refine turn_stateOf.trans ?_
    cases hf : forks H calls s x <;> simp [hf]
  · rw [startLoop, hturn, hturns]
    refine turn_running.trans ?_
    cases hf : succeeds H calls s x <;> simp [hf]

/-- After any other turn the loop does what could be told before it. -/
theorem looped_of_goes_on (hgo : escapes H calls s x = false) (hnames : s.names.Nodup) (hx : x ∉ l)
    (ih : Looped H calls l (startTurn H (calls x) x s).1) : Looped H calls (x :: l) s := by
  have hturns : turns H calls s (x :: l) = x :: turns H calls s l := List.through_cons_of_go hgo
  have hexn : (startTurn H (calls x) x s).2 = none := by
    rw [← Option.isNone_iff_eq_none, ← Option.isSome_eq_false_iff, turn_exn, hgo]
  have hturn : startTurn H (calls x) x s = ((startTurn H (calls x) x s).1, none) := Prod.ext rfl hexn
  have hcongr : ∀ r ∈ l, forks H calls (startTurn H (calls x) x s).1 r = forks H calls s r ∧
      succeeds H calls (startTurn H (calls x) x s).1 r = succeeds H calls s r ∧
      escapes H calls (startTurn H (calls x) x s).1 r = escapes H calls s r := turn_congr hnames hx
  have hrest : turns H calls (startTurn H (calls x) x s).1 l = turns H calls s l :=
    List.through_congr fun r hr => (hcongr r hr).2.2
  have hmem : ∀ r ∈ turns H calls s l, r ∈ l := (List.through_sublist _ l).subset
  obtain ⟨hforked, hstates, hnum⟩ := ih
  rw [hrest, List.filter_congr fun r hr => (hcongr r (hmem r hr)).1] at hforked
  rw [hrest, List.filter_congr fun r hr => (hcongr r (hmem r hr)).2.1] at hnum
  refine ⟨?_, fun r => ?_, ?_⟩
  · rw [forkedIn, turn_forkOf, hturns, hturn]
    dsimp only
    rw [hforked]
    cases hf : forks H calls s x <;> simp [hf]
  · have hr := hstates r
    rw [hrest, List.filter_congr fun r hr => (hcongr r (hmem r hr)).1, turn_stateOf] at hr
    rw [startLoop, hturn, hturns]
    refine hr.trans ?_
    by_cases hrx : r = x
    · subst hrx
      have hnot : r ∉ (turns H calls s l).filter (forks H calls s) := fun h =>
        hx (hmem r (List.mem_filter.mp h).1)
      cases hf : forks H calls s r <;> simp [hf, hnot]
    · cases hf : forks H calls s x <;> simp [hf, hrx]
  · rw [startLoop, hturn, hturns]
    refine hnum.trans ?_
    rw [turn_running]
    cases hf : succeeds H calls s x
    · simp [hf]
    · simp [hf]
      omega

theorem startLoop_spec : ∀ {l : List Ref} {s : Sys}, s.names.Nodup → l.Nodup → Looped H calls l s
  | [], s, _, _ => ⟨rfl, fun r => by simp [turns, List.through, startLoop], by
      simp [turns, List.through, startLoop]⟩
  | x :: l, s, hnames, hl => by
    obtain ⟨hx, hl⟩ := List.nodup_cons.mp hl
    cases hesc : escapes H calls s x with
    | true => exact looped_of_escapes hesc l
    | false => exact looped_of_goes_on hesc hnames hx (startLoop_spec (turn_names.symm ▸ hnames) hl)

/-! ### The call, in two orders -/

/-- The process can be started, and its name is free. -/
def MayBegin (s : Sys) (r : Ref) (p : ChildProcess) : Prop :=
  s.objs[r]? = some p ∧ CanStart s r ∧ p.name ∉ s.loggers

/-- The attempt throws a `ChildProcessException`: a descriptor cannot be opened,
an entry of the host's environment has no name, or an `epoll_ctl` fails. -/
def Aborts (H : Host) (c : StartCalls) (p : ChildProcess) : Prop :=
  openExn c p ≠ none ∨ (∃ e, handleEnv H p = .error e ∧ e.isStdException = false) ∨
    ((∃ environment, handleEnv H p = .ok environment) ∧ ¬ (c.epollOut = true ∧ c.epollErr = true))

theorem openExn_not_std {e : Exn} (h : openExn c p = some e) : e.isStdException = false := by
  unfold openExn at h
  split at h
  · cases h
    rfl
  · cases h
    rfl
  · split at h
    · cases h
      rfl
    · cases h

theorem registerExn_not_std {e : Exn} (h : registerExn c = some e) : e.isStdException = false := by
  unfold registerExn at h
  split at h
  · cases h
    rfl
  · split at h
    · cases h
      rfl
    · cases h

theorem aborts_iff : ((attemptExn H c p).any fun e => !e.isStdException) = true ↔ Aborts H c p := by
  unfold attemptExn forkExn Aborts
  cases ho : openExn c p with
  | some e => simp [openExn_not_std ho]
  | none =>
    cases he : handleEnv H p with
    | error e => simp
    | ok environment =>
      rw [← registerExn_eq_none]
      cases hg : registerExn c with
      | none => simp
      | some e => simp [registerExn_not_std hg]

instance (H : Host) (c : StartCalls) (p : ChildProcess) : Decidable (Aborts H c p) :=
  decidable_of_iff _ aborts_iff

/-- The two calls fork the same processes, and end with the same states and the same counter. -/
structure SameStart (H : Host) (calls₁ calls₂ : Ref → StartCalls) (s₁ s₂ : Sys) : Prop where
  forked : ∀ r, r ∈ forkedBy H calls₁ s₁ ↔ r ∈ forkedBy H calls₂ s₂
  states : ∀ r, (startPrograms H calls₁ s₁).1.stateOf r = (startPrograms H calls₂ s₂).1.stateOf r
  running : (startPrograms H calls₁ s₁).1.handler.numberOfRunningProcs =
    (startPrograms H calls₂ s₂).1.handler.numberOfRunningProcs

/-- The notifications do not depend on the order. -/
theorem notifyAll_withOrder (hs : Sensible s.objs) (hl : l.Perm s.handler.allObjs) :
    (notifyAll (s.withOrder l)).objs = (notifyAll s).objs := by
  refine List.ext_getElem? fun r => ?_
  rw [notifyAll_get (s := s.withOrder l) hs, notifyAll_get hs]
  simp only [Sys.withOrder, hl.mem_iff]

theorem notifyAll_names (hs : Sensible s.objs) : (notifyAll s).names = s.names := by
  refine List.ext_getElem? fun r => ?_
  rw [Sys.names, Sys.names, List.getElem?_map, List.getElem?_map, notifyAll_get hs, Option.map_map]
  congr 1
  funext p
  simp only [Function.comp_apply, ChildProcess.released]
  split
  · split <;> rfl
  · rfl

/-- **What `start_programs` leaves**, in any order of the list. -/
theorem startPrograms_spec (calls : Ref → StartCalls) (hs : Sensible s.objs) (hnames : s.names.Nodup)
    (hall : s.handler.allObjs.Nodup) (hl : l.Perm s.handler.allObjs) :
    forkedBy H calls (s.withOrder l) = (turns H calls (notifyAll s) l).filter (forks H calls (notifyAll s)) ∧
    (∀ r, (startPrograms H calls (s.withOrder l)).1.stateOf r =
      if r ∈ (turns H calls (notifyAll s) l).filter (forks H calls (notifyAll s)) then some .running
      else (notifyAll s).stateOf r) ∧
    (startPrograms H calls (s.withOrder l)).1.handler.numberOfRunningProcs = s.handler.numberOfRunningProcs +
      ((turns H calls (notifyAll s) l).filter (succeeds H calls (notifyAll s))).length := by
  have hobjs := notifyAll_withOrder hs hl
  have hst : startable (notifyAll (s.withOrder l)) = startable (notifyAll s) := by
    funext r
    simp only [startable, hobjs]
    rfl
  have hnames' : (notifyAll (s.withOrder l)).names.Nodup := by
    rw [Sys.names, hobjs, ← Sys.names, notifyAll_names hs]
    exact hnames
  have hforks : forks H calls (notifyAll (s.withOrder l)) = forks H calls (notifyAll s) := by
    funext r
    simp only [forks, hst]
  have hsucceeds : succeeds H calls (notifyAll (s.withOrder l)) = succeeds H calls (notifyAll s) := by
    funext r
    simp only [succeeds, hst]
  have hturns : turns H calls (notifyAll (s.withOrder l)) l = turns H calls (notifyAll s) l := by
    unfold turns
    congr 1
    funext r
    simp only [escapes, hst]
  have hloop : Looped H calls l (notifyAll (s.withOrder l)) := startLoop_spec hnames' (hl.nodup_iff.mpr hall)
  obtain ⟨hforked, hstates, hrunning⟩ := hloop
  rw [hturns, hforks] at hforked
  rw [hturns, hsucceeds] at hrunning
  refine ⟨hforked, fun r => ?_, hrunning⟩
  have hr := hstates r
  rw [hturns, hforks] at hr
  refine hr.trans ?_
  simp only [Sys.stateOf, hobjs]

/-- Who can be started after the notifications. -/
theorem startable_notifyAll {base : Objs} (hw : WellFormed base) (hi : Ids base s) {q : ChildProcess} :
    startable (notifyAll s) r = some q ↔ ∃ p, MayBegin s r p ∧ q = { p with state := .ready } := by
  have hready := notified_ready_iff hw hi (r := r)
  have hget : (notifyAll s).objs[r]? = s.objs[r]?.map _ := notifyAll_get (hi.sensible hw) r
  have hshape : ∀ {p q : ChildProcess}, s.objs[r]? = some p → (notifyAll s).objs[r]? = some q →
      q.state = .ready → q = { p with state := .ready } := by
    intro p q hp hq hqr
    rw [hp, hq, Option.map_some, Option.some.injEq] at hget
    subst hget
    unfold ChildProcess.released at hqr ⊢
    split at hqr
    · split at hqr
      · rename_i h1 h2
        rw [if_pos h1, if_pos h2]
      · rename_i h1 h2
        rw [if_pos h1, if_neg h2, ← hqr]
    · rename_i h1
      rw [if_neg h1, ← hqr]
  rw [startable_eq_some]
  constructor
  · rintro ⟨hq, hqr, hn⟩
    obtain ⟨p, hp, -⟩ := Option.map_eq_some_iff.mp (hget.symm.trans hq)
    have he := hshape hp hq hqr
    refine ⟨p, ⟨hp, hready.mp (Sys.stateOf_eq_some.mpr ⟨q, hq, hqr⟩), ?_⟩, he⟩
    rw [he] at hn
    exact hn
  · rintro ⟨p, ⟨hp, hcan, hn⟩, rfl⟩
    obtain ⟨q, hq, hqr⟩ := Sys.stateOf_eq_some.mp (hready.mpr hcan)
    rw [hq, hshape hp hq hqr]
    exact ⟨rfl, rfl, hn⟩

section Before

variable {base : Objs} (hw : WellFormed base) (hi : Ids base s)

include hw hi

/-- What is forked, in terms of the state before the call. -/
theorem forks_notifyAll : forks H calls (notifyAll s) x = true ↔
    ∃ p, MayBegin s x p ∧ ReachesFork H (calls x) p := by
  simp only [forks, Option.any_eq_true, startable_notifyAll hw hi, decide_eq_true_eq, ne_eq,
    ending_eq_threwBefore, not_not]
  constructor
  · rintro ⟨_, ⟨p, hp, rfl⟩, hf⟩
    exact ⟨p, hp, hf⟩
  · rintro ⟨p, hp, hf⟩
    exact ⟨_, ⟨p, hp, rfl⟩, hf⟩

/-- What ends the call, in terms of the state before it. -/
theorem escapes_notifyAll : escapes H calls (notifyAll s) x = true ↔
    ∃ p, MayBegin s x p ∧ Aborts H (calls x) p := by
  unfold escapes
  rw [Option.any_eq_true]
  simp only [aborts_iff, startable_notifyAll hw hi]
  constructor
  · rintro ⟨_, ⟨p, hp, rfl⟩, hf⟩
    exact ⟨p, hp, hf⟩
  · rintro ⟨p, hp, hf⟩
    exact ⟨_, ⟨p, hp, rfl⟩, hf⟩

/-- If the attempts end in the same way, the turns do. -/
theorem turns_agree (hagree : ∀ r p, MayBegin s r p → ending H (calls₁ r) p = ending H (calls₂ r) p) :
    forks H calls₁ (notifyAll s) = forks H calls₂ (notifyAll s) ∧
      succeeds H calls₁ (notifyAll s) = succeeds H calls₂ (notifyAll s) := by
  have hend : ∀ r q, startable (notifyAll s) r = some q → ending H (calls₁ r) q = ending H (calls₂ r) q := by
    intro r q hq
    obtain ⟨p, hp, rfl⟩ := (startable_notifyAll hw hi).mp hq
    exact hagree r p hp
  constructor
  · funext r
    unfold forks
    cases hq : startable (notifyAll s) r with
    | none => rfl
    | some q => simp only [Option.any_some, hend r q hq]
  · funext r
    unfold succeeds
    cases hq : startable (notifyAll s) r with
    | none => rfl
    | some q => simp only [Option.any_some, hend r q hq]

/-- A process that is forked and another one that ends the call, among those of the list. -/
theorem clash_iff : (∃ (x y : Ref) (p q : ChildProcess), x ≠ y ∧ MayBegin s x p ∧ MayBegin s y q ∧
      ReachesFork H (calls₁ x) p ∧ (Aborts H (calls₁ y) q ∨ Aborts H (calls₂ y) q)) ↔
    ∃ x ∈ s.handler.allObjs, ∃ y ∈ s.handler.allObjs, x ≠ y ∧ forks H calls₁ (notifyAll s) x = true ∧
      (escapes H calls₁ (notifyAll s) y = true ∨ escapes H calls₂ (notifyAll s) y = true) := by
  simp only [forks_notifyAll hw hi, escapes_notifyAll hw hi]
  have hlisted : ∀ {r : Ref} {p : ChildProcess}, MayBegin s r p → r ∈ s.handler.allObjs := fun {r p} hp => by
    rw [hi.allObjs, List.mem_range]
    exact hi.lt_of_get hp.1
  constructor
  · rintro ⟨x, y, p, q, hne, hp, hq, hf, ha⟩
    exact ⟨x, hlisted hp, y, hlisted hq, hne, ⟨p, hp, hf⟩, ha.imp (fun h => ⟨q, hq, h⟩) fun h => ⟨q, hq, h⟩⟩
  · rintro ⟨x, -, y, -, hne, ⟨p, hp, hf⟩, ⟨q, hq, ha⟩ | ⟨q, hq, ha⟩⟩
    · exact ⟨x, y, p, q, hne, hp, hq, hf, Or.inl ha⟩
    · exact ⟨x, y, p, q, hne, hp, hq, hf, Or.inr ha⟩

end Before

theorem forks_of_succeeds (h : succeeds H calls s r = true) : forks H calls s r = true := by
  unfold succeeds at h
  unfold forks
  cases hq : startable s r with
  | none => simp [hq] at h
  | some q =>
    simp only [hq, Option.any_some, decide_eq_true_eq] at h ⊢
    rw [h]
    decide

/-- **The order of the program list** does not matter if and only if no process
that is forked may come after another one whose attempt throws a
`ChildProcessException`. -/
theorem start_programs_order_iff (h : Runs H progs tr s) (hnames : s.names.Nodup)
    (hagree : ∀ r p, MayBegin s r p → ending H (calls₁ r) p = ending H (calls₂ r) p) :
    (∀ l₁ l₂, l₁.Perm s.handler.allObjs → l₂.Perm s.handler.allObjs →
      SameStart H calls₁ calls₂ (s.withOrder l₁) (s.withOrder l₂)) ↔
    ¬ ∃ (x y : Ref) (p q : ChildProcess), x ≠ y ∧ MayBegin s x p ∧ MayBegin s y q ∧
      ReachesFork H (calls₁ x) p ∧ (Aborts H (calls₁ y) q ∨ Aborts H (calls₂ y) q) := by
  have hw := boot_wellFormed H progs
  have hi := run_ids h
  have hs := hi.sensible hw
  have hall : s.handler.allObjs.Nodup := by
    rw [hi.allObjs]
    exact List.nodup_range
  obtain ⟨hforks, hsucceeds⟩ := turns_agree hw hi hagree
  rw [clash_iff hw hi]
  constructor
  · intro hsame
    refine List.through_perm_iff.mp fun l₁ l₂ hl₁ hl₂ r => ?_
    have hr := (hsame l₁ l₂ hl₁ hl₂).forked r
    rw [(startPrograms_spec calls₁ hs hnames hall hl₁).1, (startPrograms_spec calls₂ hs hnames hall hl₂).1,
      ← hforks] at hr
    exact hr
  · intro hno l₁ l₂ hl₁ hl₂
    obtain ⟨hf₁, hst₁, hn₁⟩ := startPrograms_spec calls₁ hs hnames hall hl₁
    obtain ⟨hf₂, hst₂, hn₂⟩ := startPrograms_spec calls₂ hs hnames hall hl₂
    have hmem : ∀ r, r ∈ (turns H calls₁ (notifyAll s) l₁).filter (forks H calls₁ (notifyAll s)) ↔
        r ∈ (turns H calls₂ (notifyAll s) l₂).filter (forks H calls₁ (notifyAll s)) :=
      List.through_perm_iff.mpr hno l₁ l₂ hl₁ hl₂
    refine ⟨fun r => ?_, fun r => ?_, ?_⟩
    · rw [hf₁, hf₂, ← hforks]
      exact hmem r
    · rw [hst₁, hst₂, ← hforks]
      simp only [hmem r]
    · -- the same processes succeed, each once
      have hperm : ((turns H calls₁ (notifyAll s) l₁).filter (succeeds H calls₁ (notifyAll s))).Perm
          ((turns H calls₂ (notifyAll s) l₂).filter (succeeds H calls₁ (notifyAll s))) :=
        List.filter_through_perm
          (by
            rintro ⟨x, hx, y, hy, hne, hact, hstop⟩
            exact hno ⟨x, hx, y, hy, hne, forks_of_succeeds hact, Or.inl hstop⟩)
          (by
            rintro ⟨x, hx, y, hy, hne, hact, hstop⟩
            exact hno ⟨x, hx, y, hy, hne, forks_of_succeeds hact, Or.inr hstop⟩) hall hl₁ hl₂
      rw [hn₁, hn₂, ← hsucceeds, hperm.length_eq]

/-- Two programs that wait for nothing. -/
def twoFree : List Program := [plain 'p' "simple" [] [], plain 'q' "simple" [] []]

theorem twoFree_possible : (exec (step bareHost) (boot bareHost twoFree) setUp).isSome = true := by decide

/-- Nothing fails. -/
def noneFails (r : Ref) : StartCalls := startOk (10 + 10 * r) (100 + r)

theorem start_programs_order_iff_twoFree : SameStart bareHost noneFails noneFails
    (((exec (step bareHost) (boot bareHost twoFree) setUp).get twoFree_possible).withOrder [0, 1])
    (((exec (step bareHost) (boot bareHost twoFree) setUp).get twoFree_possible).withOrder [1, 0]) := by
  refine (start_programs_order_iff (Run.of_isSome twoFree_possible) (by decide) fun _ _ _ => rfl).mpr ?_
    [0, 1] [1, 0] (by decide) (by decide)
  rintro ⟨x, y, p, q, -, -, hq, -, ha⟩
  have hnone : ∀ y < 2, ∀ q ∈ ((exec (step bareHost) (boot bareHost twoFree) setUp).get
      twoFree_possible).objs[y]?, ¬ Aborts bareHost (noneFails y) q := by decide
  have hlt : y < 2 := (List.getElem?_eq_some_iff.mp hq.1).1
  rcases ha with ha | ha <;> exact hnone y hlt q hq.1 ha

/-- The first `pipe` of `q` fails. -/
def pipeFails (r : Ref) : StartCalls := if r = 1 then { noneFails r with out := none } else noneFails r

/-- If `q` comes first, `p` is not started. -/
theorem order_matters : ¬ ∀ (H : Host) (progs : List Program) (tr : List (Sys × Label)) (s : Sys)
    (calls₁ calls₂ : Ref → StartCalls), Runs H progs tr s → s.names.Nodup → "scinit".toList ∉ s.names →
    (∀ r p, MayBegin s r p → ending H (calls₁ r) p = ending H (calls₂ r) p) →
    ∀ l₁ l₂, l₁.Perm s.handler.allObjs → l₂.Perm s.handler.allObjs →
      SameStart H calls₁ calls₂ (s.withOrder l₁) (s.withOrder l₂) := by
  intro hall
  have hsame := hall bareHost twoFree _ _ pipeFails pipeFails (Run.of_isSome twoFree_possible) (by decide)
    (by decide) (fun _ _ _ => rfl) [0, 1] [1, 0] (by decide) (by decide)
  have hforked := (hsame.forked 0).mp (by decide)
  revert hforked
  decide

end Scinit
