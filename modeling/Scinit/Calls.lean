/-
# A call of start_programs

The event loop starts programs in calls of `start_programs`: the notifications,
then a turn for every object in the order of the list. Between the turns the
children go on and signals arrive, but no child is reaped, so what the
notifications decided stays decided: a call starts exactly the objects that are
ready after its notifications, up to attempts that throw.

Key definitions: `Threw`, `Turned`, `Call`.
Key theorems: `run_call`, `logged_of_ready`, `call_complete`.
-/
import Scinit.Counter

namespace Scinit

open Transition

variable {H : Host} {progs : List Program} {base : Objs} {tr : List (Sys × Label)} {s s' : Sys} {l : Label}

/-- The turn of the object at `r` is an attempt that throws. -/
def Threw (H : Host) (s : Sys) (c : StartCalls) (r : Ref) : Prop :=
  ∃ site todo p, s.pc = .starting site (r :: todo) ∧ s.objs[r]? = some p ∧ p.state = .ready ∧
    (startProgram H c r p s).2 ≠ none

/-- What a turn makes of an object: nothing if it was not ready, else a child, or nothing after an
exception. -/
inductive Turned (H : Host) (post : List (Sys × Label)) (r : Ref) :
    Option ProcessState → Option ProcessState → Prop
  | idle {st : Option ProcessState} : st ≠ some .ready → Turned H post r st st
  | forked {u : Sys} {l : Label} : (u, l) ∈ post → forkOf H u l = some r →
      Turned H post r (some .ready) (some .running)
  | threw {u : Sys} {c : StartCalls} : (u, Label.start c) ∈ post → Threw H u c r →
      Turned H post r (some .ready) (some .ready)

theorem Turned.mono {post post' : List (Sys × Label)} (hsub : post ⊆ post') {r : Ref}
    {a b : Option ProcessState} (h : Turned H post r a b) : Turned H post' r a b := by
  cases h with
  | idle h => exact .idle h
  | forked hm hf => exact .forked (hsub hm) hf
  | threw hm ht => exact .threw (hsub hm) ht

/-- A turn ends nothing and blocks nothing. -/
theorem Turned.eq_of_ne {post : List (Sys × Label)} {r : Ref} {a b : Option ProcessState} (h : Turned H post r a b)
    (hready : b ≠ some .ready) (hrunning : b ≠ some .running) : a = b := by
  cases h with
  | idle => rfl
  | forked => exact absurd rfl hrunning
  | threw => exact absurd rfl hready

/-- The call of `start_programs` that began in `t` has come to `s` by the steps
`post`; the objects in `done` have had their turn, those in `todo` have not. -/
structure Call (H : Host) (site : Site) (t : Sys) (post : List (Sys × Label)) (s : Sys)
    (done todo : List Ref) : Prop where
  begins : t.pc = .notify site
  inside : ∀ e ∈ post, (∃ c, e.2 = .start c) ∨ (∃ a, e.2 = .act a) ∨ ∃ n, e.2 = .signal n
  quit : s.handler.shouldQuit = t.handler.shouldQuit
  loggers : t.loggers ⊆ s.loggers
  all : t.handler.allObjs = done ++ todo
  turned : ∀ r ∈ done, Turned H post r ((notifyAll t).stateOf r) (s.stateOf r)
  logged : ∀ r ∈ done, ∀ p, s.objs[r]? = some p → p.state = .ready → p.name ∈ s.loggers
  waiting : ∀ r ∈ todo, s.objs[r]? = (notifyAll t).objs[r]?

/-- A turn of the second loop. -/
theorem Call.turn {site : Site} {t : Sys} {post : List (Sys × Label)} {done todo : List Ref} {r : Ref}
    (h : Call H site t post s done (r :: todo)) (hnd : (done ++ r :: todo).Nodup) {c : StartCalls}
    (hquit : s'.handler.shouldQuit = s.handler.shouldQuit) (hlog : s.loggers ⊆ s'.loggers)
    (hturn : Turned H [(s, .start c)] r (s.stateOf r) (s'.stateOf r))
    (hready : ∀ p, s'.objs[r]? = some p → p.state = .ready → p.name ∈ s'.loggers)
    (hother : ∀ q, q ≠ r → s'.objs[q]? = s.objs[q]?) :
    Call H site t (post ++ [(s, .start c)]) s' (done ++ [r]) todo := by
  have hr : ∀ q ∈ done ++ todo, q ≠ r := by
    rintro q hq rfl
    rw [List.nodup_append, List.nodup_cons] at hnd
    rcases List.mem_append.mp hq with hq | hq
    · exact hnd.2.2 q hq q (by simp) rfl
    · exact hnd.2.1.1 hq
  refine ⟨h.begins, fun e he => ?_, hquit.trans h.quit, fun n hn => hlog (h.loggers hn), by
    rw [h.all, List.append_assoc]; rfl, fun q hq => ?_, fun q hq p hp hst => ?_, fun q hq => ?_⟩
  · rcases List.mem_append.mp he with he | he
    · exact h.inside e he
    · rw [List.mem_singleton.mp he]
      exact Or.inl ⟨c, rfl⟩
  · rcases List.mem_append.mp hq with hq | hq
    · have hne := hr q (List.mem_append_left _ hq)
      have hs : s'.stateOf q = s.stateOf q := by simp only [Sys.stateOf, hother q hne]
      rw [hs]
      exact (h.turned q hq).mono (List.subset_append_left _ _)
    · rw [List.mem_singleton.mp hq]
      have hs : (notifyAll t).stateOf r = s.stateOf r := by
        simp only [Sys.stateOf, h.waiting r (by simp)]
      rw [hs]
      exact hturn.mono (List.subset_append_right _ _)
  · rcases List.mem_append.mp hq with hq | hq
    · rw [hother q (hr q (List.mem_append_left _ hq))] at hp
      exact hlog (h.logged q hq p hp hst)
    · rw [List.mem_singleton.mp hq] at hp
      exact hready p hp hst
  · rw [hother q (hr q (List.mem_append_right _ hq))]
    exact h.waiting q (List.mem_cons_of_mem _ hq)

/-- What happens outside changes nothing of a call. -/
theorem Call.stay {site : Site} {t : Sys} {post : List (Sys × Label)} {done todo : List Ref}
    (h : Call H site t post s done todo) {l : Label} (hl : (∃ a, l = .act a) ∨ ∃ n, l = .signal n)
    (hquit : s'.handler.shouldQuit = s.handler.shouldQuit) (hlog : s'.loggers = s.loggers)
    (hobjs : s'.objs = s.objs) : Call H site t (post ++ [(s, l)]) s' done todo := by
  refine ⟨h.begins, fun e he => ?_, hquit.trans h.quit, hlog ▸ h.loggers, h.all, fun q hq => ?_,
    fun q hq p hp hst => ?_, fun q hq => ?_⟩
  · rcases List.mem_append.mp he with he | he
    · exact h.inside e he
    · rw [List.mem_singleton.mp he]
      exact Or.inr hl
  · rw [show s'.stateOf q = s.stateOf q by simp only [Sys.stateOf, hobjs]]
    exact (h.turned q hq).mono (List.subset_append_left _ _)
  · rw [hlog]
    exact h.logged q hq p (hobjs ▸ hp) hst
  · rw [hobjs]
    exact h.waiting q hq

theorem startProgram_logged {c : StartCalls} {r : Ref} {p : ChildProcess} (hn : p.name ∈ s.loggers) :
    startProgram H c r p s = (s, some (.stdException "logger with that name already exists")) := if_pos hn

/-- A turn that throws leaves a ready object ready. -/
theorem turned_of_threw {c : StartCalls} {r : Ref} (ht : Threw H s c r) (hs : s.stateOf r = some .ready)
    (hs' : s'.stateOf r = some .ready) : Turned H [(s, .start c)] r (s.stateOf r) (s'.stateOf r) := by
  rw [hs, hs']
  exact .threw (List.mem_singleton_self _) ht

section

variable {site : Site} {t : Sys} {post : List (Sys × Label)} {done todo : List Ref} {r : Ref} {c : StartCalls}
  {p : ChildProcess} {out err : ℤ × ℤ} {b b' : PtyName}

theorem Call.skipped (h : Call H site t post s done (r :: todo)) (hnd : (done ++ r :: todo).Nodup)
    (hpc : s.pc = .starting site (r :: todo))
    (hskip : ∀ p, s.objs[r]? = some p → p.state = .ready → p.name ∈ s.loggers) :
    Call H site t (post ++ [(s, .start c)]) { s with pc := .starting site todo } (done ++ [r]) todo := by
  refine h.turn hnd rfl (List.Subset.refl _) ?_ hskip fun _ _ => rfl
  by_cases hr : s.stateOf r = some .ready
  · obtain ⟨p, hp, hst⟩ := Sys.stateOf_eq_some.mp hr
    have hexn : (startProgram H c r p s).2 ≠ none := by
      rw [startProgram_logged (hskip p hp hst)]
      exact Option.some_ne_none _
    exact turned_of_threw ⟨_, _, p, hpc, hp, hst, hexn⟩ hr hr
  · exact .idle hr

theorem Call.threw (h : Call H site t post s done (r :: todo)) (hnd : (done ++ r :: todo).Nodup)
    (hpc : s.pc = .starting site (r :: todo)) (hp : s.objs[r]? = some p) (hr : p.state = .ready)
    (hn : p.name ∉ s.loggers) (hexn : (doFork H c r p s.kernel s.handler.idForPid).exn ≠ none) (k : Kernel) :
    Call H site t (post ++ [(s, .start c)]) { s with
      objs := s.objs.set r (p.withStdio out err b b')
      loggers := s.loggers ++ [p.name]
      kernel := k
      pc := .starting site todo } (done ++ [r]) todo := by
  have hself : (s.objs.set r (p.withStdio out err b b'))[r]? = some (p.withStdio out err b b') :=
    List.getElem?_set_self (List.getElem?_eq_some_iff.mp hp).1
  refine h.turn hnd rfl (List.subset_append_left _ _) ?_ (fun q hq _ => ?_)
    fun q hq => List.getElem?_set_ne (Ne.symm hq)
  · have hthrew : (startProgram H c r p s).2 ≠ none := by
      obtain ⟨e, he⟩ := Option.ne_none_iff_exists'.mp hexn
      simp only [startProgram, if_neg hn, he]
      exact Option.some_ne_none _
    exact turned_of_threw ⟨_, _, p, hpc, hp, hr, hthrew⟩ (Sys.stateOf_eq_some.mpr ⟨p, hp, hr⟩)
      (Sys.stateOf_eq_some.mpr ⟨_, hself, hr⟩)
  · rw [hself, Option.some.injEq] at hq
    subst hq
    exact List.mem_append_right _ (List.mem_singleton_self _)

theorem Call.forked (h : Call H site t post s done (r :: todo)) (hnd : (done ++ r :: todo).Nodup)
    (hpc : s.pc = .starting site (r :: todo)) (hp : s.objs[r]? = some p) (hr : p.state = .ready)
    (hn : p.name ∉ s.loggers) (hexn : (doFork H c r p s.kernel s.handler.idForPid).exn = none)
    (environment : List Text) :
    Call H site t (post ++ [(s, .start c)])
      { (s.forked c r p out err b b' environment).registered p.graphId out.1 err.1 with
        pc := .starting site todo } (done ++ [r]) todo := by
  have hself : (s.objs.set r (p.forked c out err b b'))[r]? = some (p.forked c out err b b') :=
    List.getElem?_set_self (List.getElem?_eq_some_iff.mp hp).1
  refine h.turn hnd rfl (List.subset_append_left _ _) ?_ (fun q hq hst => ?_)
    fun q hq => List.getElem?_set_ne (Ne.symm hq)
  · rw [Sys.stateOf_eq hp, hr]
    show Turned H _ r _ ((s.objs.set r (p.forked c out err b b'))[r]?.map ChildProcess.state)
    rw [hself]
    exact .forked (List.mem_singleton_self _) (forkOf_of_exn hpc hp hr hn hexn)
  · have hq : (s.objs.set r (p.forked c out err b b'))[r]? = some q := hq
    rw [hself, Option.some.injEq] at hq
    subst hq
    cases hst

end

/-- One step inside of a call. -/
theorem Call.step {site : Site} {t : Sys} {post : List (Sys × Label)} {done todo : List Ref}
    (h : Call H site t post s done todo) (hnd : t.handler.allObjs.Nodup)
    (hpc : s.pc = .starting site todo) (he : Effect H s l s') {site' : Site} {todo' : List Ref}
    (hpc' : s'.pc = .starting site' todo') :
    site' = site ∧ ∃ done', Call H site t (post ++ [(s, l)]) s' done' todo' := by
  rw [h.all] at hnd
  cases he with
  | setup hpc1 | setupFailed hpc1 | notify hpc1 | epollWait hpc1 | reap hpc1 | reapUnknown hpc1
  | reaped hpc1 | signalled hpc1 | output hpc1 | hungUp hpc1 | eventFailed hpc1 | exitTest hpc1 =>
    rw [hpc] at hpc1
    cases hpc1
  | unregistered => cases hpc'
  | skipped hpc1 hskip =>
    rw [hpc] at hpc1
    cases hpc1
    cases hpc'
    exact ⟨rfl, _, h.skipped hnd hpc hskip⟩
  | threw hpc1 hp hr hn hk hpcs hexn =>
    rw [hpc] at hpc1
    cases hpc1
    rcases hpcs with rfl | ⟨e, rfl⟩
    · cases hpc'
      exact ⟨rfl, _, h.threw hnd hpc hp hr hn hexn _⟩
    · cases hpc'
  | forked hpc1 hp hr hn hk h1 h2 hexn =>
    rw [hpc] at hpc1
    cases hpc1
    cases hpc'
    exact ⟨rfl, _, h.forked hnd hpc hp hr hn hexn _⟩
  | @started site₁ =>
    have hpc' : afterStart site₁ s = .starting site' todo' := hpc'
    rcases afterStart_cases site₁ s with ⟨-, h⟩ | ⟨-, -, h⟩ | ⟨-, h⟩ <;> rw [h] at hpc' <;> cases hpc'
  | @act a k hend ha =>
    have hpc' : s.pc = .starting site' todo' := hpc'
    rw [hpc] at hpc'
    cases hpc'
    exact ⟨rfl, _, h.stay (Or.inl ⟨a, rfl⟩) rfl rfl rfl⟩
  | @signal n hend _ hn =>
    rcases deliver_cases H n s with ⟨p, hd⟩ | ⟨-, -, hd⟩
    · rw [hd] at hpc' ⊢
      have hpc' : s.pc = .starting site' todo' := hpc'
      rw [hpc] at hpc'
      cases hpc'
      exact ⟨rfl, _, h.stay (Or.inr ⟨n, rfl⟩) rfl rfl rfl⟩
    · rw [hd] at hpc'
      cases hpc'

/-- The notifications begin a call. -/
theorem Call.start {site : Site} {t : Sys} (hpc : t.pc = .notify site) (pc : Pc) :
    Call H site t [] { notifyAll t with pc := pc } [] t.handler.allObjs where
  begins := hpc
  inside := fun _ h => absurd h List.not_mem_nil
  quit := rfl
  loggers := List.Subset.refl _
  all := rfl
  turned := fun _ h => absurd h List.not_mem_nil
  logged := fun _ h => absurd h List.not_mem_nil
  waiting := fun _ _ => rfl

/-- A call is entered by its notifications. -/
theorem starting_entered (he : Effect H s l s') {site : Site} {todo : List Ref}
    (hpc : s'.pc = .starting site todo) : (∃ site₀ todo₀, s.pc = .starting site₀ todo₀) ∨
      (l = .notify ∧ s.pc = .notify site ∧ todo = s.handler.allObjs ∧
        s' = { notifyAll s with pc := .starting site s.handler.allObjs }) := by
  cases he with
  | notify hpc1 =>
    cases hpc
    exact Or.inr ⟨rfl, hpc1, rfl, rfl⟩
  | skipped hpc1 | threw hpc1 | unregistered hpc1 | forked hpc1 | started hpc1 =>
    exact Or.inl ⟨_, _, hpc1⟩
  | setup | setupFailed | epollWait | reaped | signalled | output | hungUp | eventFailed => cases hpc
  | reap hpc1 | reapUnknown hpc1 => exact Or.inl ⟨_, _, hpc⟩
  | exitTest =>
    have hpc : afterBatch s = .starting site todo := hpc
    rcases afterBatch_cases s with ⟨-, -, h⟩ | ⟨-, h⟩ | ⟨-, h⟩ <;> rw [h] at hpc <;> cases hpc
  | act => exact Or.inl ⟨_, _, hpc⟩
  | @signal n =>
    rcases deliver_cases H n s with ⟨p, hd⟩ | ⟨-, -, hd⟩
    · rw [hd] at hpc
      exact Or.inl ⟨_, _, hpc⟩
    · rw [hd] at hpc
      cases hpc

/-- **Every turn is in a call**: it began with its notifications, in the run. -/
theorem run_call (h : Runs H progs tr s) {site : Site} {todo : List Ref}
    (hpc : s.pc = .starting site todo) : ∃ pre t post done, tr = pre ++ (t, .notify) :: post ∧
      Runs H progs pre t ∧ Call H site t post s done todo := by
  induction h generalizing site todo with
  | refl => cases hpc
  | @snoc tr s s' l h hs ih =>
    obtain ⟨hi, -, he⟩ := run_effect h hs
    rcases starting_entered he hpc with ⟨site₀, todo₀, hpc₀⟩ | ⟨rfl, hpc₁, rfl, rfl⟩
    · obtain ⟨pre, t, post, done, rfl, hpre, hcall⟩ := ih hpc₀
      have hnd : t.handler.allObjs.Nodup := by
        rw [(run_ids hpre).allObjs]
        exact List.nodup_range
      obtain ⟨rfl, done', hcall'⟩ := hcall.step hnd hpc₀ he hpc
      exact ⟨pre, t, post ++ [(s, l)], done', by rw [List.append_assoc, List.cons_append], hpre, hcall'⟩
    · exact ⟨tr, s, [], [], rfl, h, Call.start hpc₁ _⟩

/-! ### Between the calls -/

/-- Some call has ended and no other has begun. -/
def Pc.between : Pc → Bool
  | .notify .head | .notify .tail | .polling | .reaping _ | .handling _ | .returned _ => true
  | _ => false

/-- An object that a reaped child belongs to is not ready afterwards. -/
theorem get_of_reaped {pid rc : ℤ} {id : ℕ} {r : Ref} {p : ChildProcess}
    (hp : (s.reaped pid rc id).objs[r]? = some p) (hr : p.state = .ready) : s.objs[r]? = some p := by
  simp only [Sys.reaped, List.getElem?_modify] at hp
  by_cases he : id = r
  · simp only [he, if_true, Option.map_eq_map, Option.map_eq_some_iff] at hp
    obtain ⟨q, -, rfl⟩ := hp
    simp only [ChildProcess.handleProcessEvent] at hr
    split at hr <;> cases hr
  · simpa [he] using hp

/-- **Between the calls** every ready object has had an attempt that threw: its
name has a logger, so no later attempt gets to its fork. -/
theorem logged_of_ready (h : Runs H progs tr s) (hb : s.pc.between = true) {r : Ref} {p : ChildProcess}
    (hp : s.objs[r]? = some p) (hr : p.state = .ready) : p.name ∈ s.loggers := by
  induction h generalizing p with
  | refl => cases hb
  | @snoc tr s s' l h hs ih =>
    obtain ⟨hi, -, he⟩ := run_effect h hs
    have hkeep : s.pc.between = true → s.objs[r]? = some p → p.name ∈ s.loggers := fun hb hp => ih hb hp hr
    cases he with
    | setup | setupFailed | notify | skipped | unregistered | forked | eventFailed => cases hb
    | threw _ _ _ _ _ hpc =>
      rcases hpc with rfl | ⟨e, rfl⟩ <;> cases hb
    | started hpc =>
      obtain ⟨pre, t, post, done, -, hpre, hcall⟩ := run_call h hpc
      have hmem : r ∈ done := by
        have hall := hcall.all
        rw [(run_ids hpre).allObjs, List.append_nil] at hall
        rw [← hall, List.mem_range]
        exact hi.lt_of_get hp
      exact hcall.logged r hmem p hp hr
    | epollWait hpc | reapUnknown hpc | reaped hpc | output hpc | hungUp hpc | exitTest hpc =>
      rw [hpc] at hkeep
      exact hkeep rfl hp
    | reap hpc =>
      rw [hpc] at hkeep
      exact hkeep rfl (get_of_reaped hp hr)
    | signalled hpc =>
      rw [hpc] at hkeep
      rw [signalReceived_objs] at hp
      rw [signalReceived_loggers]
      exact hkeep rfl hp
    | act => exact hkeep hb hp
    | signal =>
      rw [deliver_objs] at hp
      rw [deliver_loggers]
      rw [pc_of_deliver fun m hm => by rw [hm] at hb; cases hb] at hb
      exact hkeep hb hp

/-- At the end of a call every object has had its turn. -/
theorem call_complete (h : Runs H progs tr s) {site : Site} (hpc : s.pc = .starting site []) :
    ∃ pre t post, tr = pre ++ (t, .notify) :: post ∧ Runs H progs pre t ∧
      Call H site t post s (List.range progs.length) [] := by
  obtain ⟨pre, t, post, done, htr, hpre, hcall⟩ := run_call h hpc
  have hall := hcall.all
  rw [(run_ids hpre).allObjs, List.append_nil, boot_length] at hall
  subst hall
  exact ⟨pre, t, post, htr, hpre, hcall⟩

/-- What the notifications decide of an object. -/
theorem notified_stateOf (hw : WellFormed base) (hi : Ids base s) {r : Ref} {p : ChildProcess}
    (hp : s.objs[r]? = some p) : (notifyAll s).stateOf r =
      some (if p.state = .blocked ∧ met s.objs s.handler.objForId p then .ready else p.state) := by
  have hmem : r ∈ s.handler.allObjs := by
    rw [hi.allObjs, List.mem_range]
    exact hi.lt_of_get hp
  rw [Sys.stateOf, notifyAll_get (hi.sensible hw), hp, Option.map_some, if_pos hmem, Option.map_some,
    ChildProcess.released]
  split_ifs <;> rfl

/-- The conditions of an object are met when each id it lists is in the state it asks for. -/
theorem met_iff (hw : WellFormed base) (hi : Ids base s) {r : Ref} {p : ChildProcess}
    (hp : s.objs[r]? = some p) : met s.objs s.handler.objForId p ↔
      ∀ c ∈ p.conditions, s.stateOf c.1 = some c.2 :=
  forall_congr' fun _ => forall_congr' fun hc => hi.fulfilled_iff (hi.known hw hp hc)

end Scinit
