/-
# The life of a process

The event loop is a supervisor in the sense of `Scinit/Supervisor.lean`: each of
its steps releases processes, starts one, ends one, or leaves their states as
they are (`run_refines`). What holds of every supervisor holds of scinit:
states only move forward, and a process is forked at most once. An exit that
`waitpid` reports ends the process that forked the child and no other.

Key definitions: `forkOf`, `Sys.stateOf`, `statesOf`, `needsOf`, `actOf`.
Key theorems: `run_refines`, `child_forked`, `lifecycle`.
-/
import Scinit.Invariant
import Scinit.Supervisor

namespace Scinit

open Transition

variable {H : Host} {progs : List Program} {base : Objs} {tr : List (Sys × Label)} {s s' : Sys} {l : Label}

/-- The object a step forks: it is ready when its turn comes, its name has no
logger yet, and `do_fork` gets past its `fork`. -/
def forkOf (H : Host) (s : Sys) : Label → Option Ref
  | .start c =>
    match s.pc with
    | .starting _ (ref :: _) =>
      match s.objs[ref]? with
      | some p =>
        if p.canStartNow ∧ p.name ∉ s.loggers ∧
            (doFork H c ref p s.kernel s.handler.idForPid).exn = none then some ref
        else none
      | none => none
    | _ => none
  | _ => none

theorem forkOf_start {c : StartCalls} {site : Site} {ref : Ref} {todo : List Ref} {p : ChildProcess}
    (hpc : s.pc = .starting site (ref :: todo)) (hp : s.objs[ref]? = some p) :
    forkOf H s (.start c) = if p.state = .ready ∧ p.name ∉ s.loggers ∧
      (doFork H c ref p s.kernel s.handler.idForPid).exn = none then some ref else none := by
  simp [forkOf, hpc, hp, ChildProcess.canStartNow]

/-- An attempt that gets through `do_fork` forks its object. -/
theorem forkOf_of_exn {c : StartCalls} {site : Site} {ref : Ref} {todo : List Ref} {p : ChildProcess}
    (hpc : s.pc = .starting site (ref :: todo)) (hp : s.objs[ref]? = some p) (hr : p.state = .ready)
    (hn : p.name ∉ s.loggers) (hexn : (doFork H c ref p s.kernel s.handler.idForPid).exn = none) :
    forkOf H s (.start c) = some ref := by
  rw [forkOf_start hpc hp, if_pos ⟨hr, hn, hexn⟩]

theorem forkOf_eq_some {r : Ref} (h : forkOf H s l = some r) : ∃ c site todo p, l = .start c ∧
    s.pc = .starting site (r :: todo) ∧ s.objs[r]? = some p ∧ p.state = .ready ∧ p.name ∉ s.loggers ∧
      (doFork H c r p s.kernel s.handler.idForPid).exn = none := by
  cases l with
  | start c =>
    simp only [forkOf] at h
    split at h
    · rename_i site ref todo hpc
      split at h
      · rename_i p hp
        simp only [ChildProcess.canStartNow, decide_eq_true_eq, Option.ite_none_right_eq_some,
          Option.some.injEq] at h
        obtain ⟨⟨h1, h2, h3⟩, rfl⟩ := h
        exact ⟨c, site, todo, p, rfl, hpc, hp, h1, h2, h3⟩
      · cases h
    · cases h
  | _ => cases h

/-! ### The abstraction -/

/-- The state of the object at `r`. -/
def Sys.stateOf (s : Sys) (r : Ref) : Option ProcessState := s.objs[r]?.map ChildProcess.state

theorem Sys.stateOf_eq {r : Ref} {p : ChildProcess} (hp : s.objs[r]? = some p) :
    s.stateOf r = some p.state := by
  simp [Sys.stateOf, hp]

theorem Sys.stateOf_eq_some {r : Ref} {st : ProcessState} :
    s.stateOf r = some st ↔ ∃ p, s.objs[r]? = some p ∧ p.state = st := by
  simp [Sys.stateOf]

/-- The states of the processes. -/
def statesOf (n : ℕ) (s : Sys) : Fin n → ProcessState :=
  fun i => (s.objs[i.val]?.map ChildProcess.state).getD .blocked

/-- What a process needs of the others: its conditions. -/
def needsOf (base : Objs) (i : Fin base.length) : Set (Fin base.length × ProcessState) :=
  {m | ∃ p, base[i.val]? = some p ∧ (m.1.val, m.2) ∈ p.conditions}

/-- What a step is to the supervisor. -/
def actOf (H : Host) (n : ℕ) (s : Sys) (l : Label) : Supervisor.Act (Fin n) :=
  match l with
  | .notify => .release
  | .reap pid rc =>
    match s.kernel.children[pid]? with
    | some c => if h : c.owner < n then .finish ⟨c.owner, h⟩ (decide (rc = 0)) else .stay
    | none => .stay
  | l =>
    match forkOf H s l with
    | some r => if h : r < n then .start ⟨r, h⟩ else .stay
    | none => .stay

theorem statesOf_eq {n : ℕ} {i : Fin n} {p : ChildProcess} (hp : s.objs[i.val]? = some p) :
    statesOf n s i = p.state := by
  simp [statesOf, hp]

theorem statesOf_congr {n : ℕ} (h : ∀ r : Ref, s'.objs[r]?.map ChildProcess.state =
    s.objs[r]?.map ChildProcess.state) : statesOf n s' = statesOf n s := by
  funext i
  simp only [statesOf, h]

/-- The conditions are met when what the supervisor needs holds. -/
theorem met_iff_held (hw : WellFormed base) (hi : Ids base s) {i : Fin base.length} {p : ChildProcess}
    (hp : s.objs[i.val]? = some p) :
    met s.objs s.handler.objForId p ↔ Supervisor.Held (needsOf base) (statesOf base.length s) i := by
  obtain ⟨p₀, h0, hfix⟩ := hi.get hp
  have hcond := ChildProcess.conditions_of_fixed hfix
  constructor
  · rintro h ⟨j, st⟩ ⟨q, hq, hm⟩
    rw [h0, Option.some.injEq] at hq
    subst hq
    have := (hi.fulfilled_iff (c := (j.val, st)) j.isLt).mp (h _ (hcond ▸ hm))
    simp only [statesOf, this, Option.getD_some]
  · intro h c hc
    have hlt := hi.known hw hp hc
    rw [hi.fulfilled_iff hlt]
    have := h (⟨c.1, hlt⟩, c.2) ⟨p₀, h0, hcond ▸ hc⟩
    simp only [statesOf] at this
    obtain ⟨q, hq⟩ : ∃ q, s.objs[c.1]? = some q :=
      ⟨_, List.getElem?_eq_getElem (hi.length.symm ▸ hlt)⟩
    simpa [hq] using this

/-- An attempt that forks nothing is no start. -/
theorem actOf_start_none {n : ℕ} {c : StartCalls} (hf : forkOf H s (.start c) = none) :
    actOf H n s (.start c) = .stay := by
  simp only [actOf, hf]

/-- After a fork, the object runs and the others are as they were. -/
theorem statesOf_set {ref : Ref} {p : ChildProcess} (hp : s.objs[ref]? = some p) {n : ℕ}
    (hlt : ref < n) (p' : ChildProcess) (hobjs : s'.objs = s.objs.set ref p') :
    statesOf n s' = Function.update (statesOf n s) ⟨ref, hlt⟩ p'.state := by
  funext i
  by_cases h : i = ⟨ref, hlt⟩
  · subst h
    simp [statesOf, hobjs, List.getElem?_set_self (List.getElem?_eq_some_iff.mp hp).1]
  · have hne : ref ≠ i.val := fun he => h (Fin.ext he.symm)
    simp [statesOf, hobjs, List.getElem?_set_ne hne, h]

/-- A step that changes no state is none of the supervisor's. -/
theorem refines_stay (hact : actOf H base.length s l = .stay)
    (hsame : ∀ r : Ref, s'.objs[r]?.map ChildProcess.state = s.objs[r]?.map ChildProcess.state) :
    Supervisor.step (needsOf base) (statesOf base.length s) (actOf H base.length s l) =
      some (statesOf base.length s') := by
  rw [hact, statesOf_congr hsame]
  rfl

/-- A fork is a start. -/
theorem refines_start (hi : Ids base s) {c : StartCalls} {ref : Ref} {p p' : ChildProcess}
    (hf : forkOf H s (.start c) = some ref) (hp : s.objs[ref]? = some p) (hr : p.state = .ready)
    (hobjs : s'.objs = s.objs.set ref p') (hrun : p'.state = .running) :
    Supervisor.step (needsOf base) (statesOf base.length s) (actOf H base.length s (.start c)) =
      some (statesOf base.length s') := by
  have hlt := hi.lt_of_get hp
  have hstate : statesOf base.length s ⟨ref, hlt⟩ = .ready := (statesOf_eq hp).trans hr
  simp only [actOf, hf, hlt, dite_true, Supervisor.step]
  rw [if_pos hstate, statesOf_set hp hlt p' hobjs, hrun]

/-- The notifications release what has what it needs. -/
theorem refines_release (hw : WellFormed base) (hi : Ids base s) (pc : Pc) :
    Supervisor.step (needsOf base) (statesOf base.length s) (actOf H base.length s .notify) =
      some (statesOf base.length { notifyAll s with pc := pc }) := by
  simp only [actOf, Supervisor.step, Option.some.injEq]
  funext i
  obtain ⟨p, hp⟩ : ∃ p, s.objs[i.val]? = some p :=
    ⟨_, List.getElem?_eq_getElem (hi.length.symm ▸ i.isLt)⟩
  have hmem : i.val ∈ s.handler.allObjs := by
    rw [hi.allObjs]
    simp
  have hnew : ({ notifyAll s with pc := pc } : Sys).objs[i.val]? = some (p.released s.objs s.handler.objForId) := by
    show (notifyAll s).objs[i.val]? = _
    rw [notifyAll_get (hi.sensible hw), hp, Option.map_some, if_pos hmem]
  rw [statesOf_eq hp, statesOf_eq hnew, ← met_iff_held hw hi hp, ChildProcess.released]
  split_ifs <;> rfl

/-- A reaped child finishes its process. -/
theorem refines_finish (hi : Ids base s) {pid : ℤ} {c : Child} (hc : s.kernel.children[pid]? = some c) (rc : ℤ) :
    Supervisor.step (needsOf base) (statesOf base.length s) (actOf H base.length s (.reap pid rc)) =
      some (statesOf base.length (s.reaped pid rc c.owner)) := by
  obtain ⟨p, hp, hrun, -, -⟩ := hi.pidOwner pid c.owner (hi.child pid c hc).2
  have hlt := hi.lt_of_get hp
  have hstate : statesOf base.length s ⟨c.owner, hlt⟩ = .running := (statesOf_eq hp).trans hrun
  simp only [actOf, hc, hlt, dite_true, Supervisor.step]
  rw [if_pos hstate, statesOf_set hp hlt (p.handleProcessEvent .exit rc) (Sys.reaped_objs hp pid rc)]
  by_cases h : rc = 0
  · simp [ChildProcess.handleProcessEvent, h]
  · simp [ChildProcess.handleProcessEvent, h]

/-- **Refinement, one step.** -/
theorem effect_refines (hw : WellFormed base) (hi : Ids base s) (he : Effect H s l s') :
    Supervisor.step (needsOf base) (statesOf base.length s) (actOf H base.length s l) =
      some (statesOf base.length s') := by
  cases he with
  | setup | setupFailed | started | epollWait | reaped | output | hungUp | eventFailed | exitTest | act =>
    exact refines_stay rfl fun _ => rfl
  | notify => exact refines_release hw hi _
  | @skipped c site ref todo hpc hskip =>
    refine refines_stay (actOf_start_none ?_) fun _ => rfl
    cases hf : forkOf H s (.start c) with
    | none => rfl
    | some r =>
      obtain ⟨_, _, _, p, -, hpc', hp, hr, hn, -⟩ := forkOf_eq_some hf
      rw [hpc] at hpc'
      cases hpc'
      exact absurd (hskip p hp hr) hn
  | threw hpc hp hr hn hk hpc' hexn =>
    refine refines_stay (actOf_start_none ?_) (map_getElem?_set hp (by rfl))
    rw [forkOf_start hpc hp, if_neg fun h => hexn h.2.2]
  | unregistered hpc hp hr hn _ _ _ hexn | forked hpc hp hr hn _ _ _ hexn =>
    exact refines_start hi (forkOf_of_exn hpc hp hr hn hexn) hp hr (by rfl) rfl
  | reap hpc hc hst => exact refines_finish hi hc _
  | reapUnknown hpc hc hid =>
    simp only [actOf, hc]
    rfl
  | signalled => exact refines_stay rfl fun _ => by rw [signalReceived_objs]
  | signal => exact refines_stay rfl fun _ => by rw [deliver_objs]

/-- **Refinement.** The runs of scinit are runs of the supervisor. -/
theorem run_refines (h : Runs H progs tr s) :
    Run (Supervisor.step (needsOf (boot H progs).objs)) (statesOf _ (boot H progs))
      (tr.map fun e => (statesOf (boot H progs).objs.length e.1,
        actOf H (boot H progs).objs.length e.1 e.2)) (statesOf _ s) := by
  refine Run.simulate (fun tr s l s' h hs => ?_) h
  obtain ⟨hi, hf, he⟩ := run_effect h hs
  exact effect_refines (boot_wellFormed H progs) hi he

/-! ### Where children and descriptors come from -/

/-- What becomes of a child: it is sent signals and exits, and is otherwise as it was. -/
structure Child.Becomes (c c' : Child) : Prop where
  owner : c'.owner = c.owner
  out : c'.out = c.out
  err : c'.err = c.err
  signals : c.signals ⊆ c'.signals
  alive : c'.status = none → c.status = none

theorem Child.Becomes.refl (c : Child) : c.Becomes c := ⟨rfl, rfl, rfl, List.Subset.refl _, id⟩

/-- A child was there before the step, or is forked by it. -/
theorem child_of_effect (he : Effect H s l s') {pid : ℤ} {ch' : Child}
    (h : s'.kernel.children[pid]? = some ch') :
    (∃ ch, s.kernel.children[pid]? = some ch ∧ ch.Becomes ch') ∨
    ∃ c out err, l = .start c ∧ forkOf H s l = some ch'.owner ∧ c.fork = some pid ∧
      c.out = some out ∧ c.err = some err ∧ ch'.out = out.1 ∧ ch'.err = err.1 := by
  have hsame : ∀ m : Map ℤ Child, m = s.kernel.children → m[pid]? = some ch' →
      ∃ ch, s.kernel.children[pid]? = some ch ∧ ch.Becomes ch' := fun m hm h => ⟨ch', hm ▸ h, .refl ch'⟩
  have hfork : ∀ (c : StartCalls) (ref : Ref) (p : ChildProcess) (out err : ℤ × ℤ) (env : List Text),
      (s.kernel.forked c out err (childOf ref p out err env)).children[pid]? = some ch' →
      (∃ ch, s.kernel.children[pid]? = some ch ∧ ch.Becomes ch') ∨
      (c.fork = some pid ∧ ch'.owner = ref ∧ ch'.out = out.1 ∧ ch'.err = err.1) := by
    intro c ref p out err env hc
    rw [Kernel.forked_child] at hc
    by_cases hf : c.fork = some pid
    · rw [if_pos hf, Option.some.injEq] at hc
      subst hc
      exact Or.inr ⟨hf, rfl, rfl, rfl⟩
    · rw [if_neg hf] at hc
      exact Or.inl (hsame _ rfl hc)
  cases he with
  | setup | setupFailed | notify | skipped | started | epollWait | reaped | output | hungUp | eventFailed
  | exitTest | reapUnknown => exact Or.inl (hsame _ rfl h)
  | threw hpc hp hr hn hk => exact Or.inl (hsame _ hk.children h)
  | unregistered hpc hp hr hn hk h1 h2 hexn | forked hpc hp hr hn hk h1 h2 hexn =>
    rcases hfork _ _ _ _ _ _ h with h | ⟨h3, h4, h5, h6⟩
    · exact Or.inl h
    · exact Or.inr ⟨_, _, _, rfl, h4 ▸ forkOf_of_exn hpc hp hr hn hexn, h3, h1, h2, h5, h6⟩
  | reap hpc hc hst =>
    simp only [Sys.reaped, Kernel.reap, Std.ExtTreeMap.getElem?_erase,
      Option.ite_none_left_eq_some] at h
    exact Or.inl (hsame _ rfl h.2)
  | @signalled c e batch n =>
    obtain ⟨k, q, hk, he⟩ := signalReceived_eq n
      { s with kernel := { s.kernel with pending := s.kernel.pending.erase n } }
    rw [he] at h
    obtain ⟨f, hf⟩ := hk.child pid
    have h : k.children[pid]? = some ch' := h
    rw [hf, Option.map_eq_some_iff] at h
    obtain ⟨ch, hch, rfl⟩ := h
    exact Or.inl ⟨ch, hch, rfl, rfl, rfl, List.subset_append_left _ _, id⟩
  | act _ ha =>
    obtain ⟨ch, st, hch, rfl, hst⟩ := (Kernel.acted ha).child pid ch' h
    exact Or.inl ⟨ch, hch, rfl, rfl, rfl, List.Subset.refl _, fun h => hst.elim (fun he => he.trans h) id⟩
  | signal => exact Or.inl (hsame _ (deliver_children H _ s) h)

/-- A started process was started before the step, or is forked by it. -/
theorem started_of_effect (hw : WellFormed base) (hi : Ids base s) (he : Effect H s l s') {r : Ref}
    {p' : ChildProcess} (h : s'.objs[r]? = some p') (hs : p'.started) :
    (∃ p, s.objs[r]? = some p ∧ p.started ∧ p'.stdout = p.stdout ∧ p'.stderr = p.stderr ∧
      p'.primaryPid = p.primaryPid) ∨
    ∃ c, l = .start c ∧ forkOf H s l = some r ∧ c.out = some p'.stdout ∧ c.err = some p'.stderr ∧
      p'.primaryPid = c.fork.getD (-1) := by
  cases he with
  | setup | setupFailed | skipped | started | epollWait | reaped | output | hungUp | eventFailed
  | exitTest | reapUnknown | act => exact Or.inl ⟨p', h, hs, rfl, rfl, rfl⟩
  | @notify site hpc =>
    rw [show ({ notifyAll s with pc := .starting site s.handler.allObjs } : Sys).objs =
      (notifyAll s).objs from rfl, notifyAll_get (hi.sensible hw), Option.map_eq_some_iff] at h
    obtain ⟨p, hp, rfl⟩ := h
    refine Or.inl ⟨p, hp, ?_⟩
    split_ifs at hs ⊢
    · unfold ChildProcess.released at hs ⊢
      split_ifs at hs ⊢
      · exact absurd rfl hs.2
      · exact ⟨hs, rfl, rfl, rfl⟩
    · exact ⟨hs, rfl, rfl, rfl⟩
  | threw hpc hp hr =>
    rcases getElem?_set_cases hp h with ⟨rfl, rfl⟩ | ⟨-, h⟩
    · exact absurd hr hs.2
    · exact Or.inl ⟨p', h, hs, rfl, rfl, rfl⟩
  | unregistered hpc hp hr hn hk h1 h2 hexn | forked hpc hp hr hn hk h1 h2 hexn =>
    rcases getElem?_set_cases hp h with ⟨rfl, rfl⟩ | ⟨-, h⟩
    · exact Or.inr ⟨_, rfl, forkOf_of_exn hpc hp hr hn hexn, h1, h2, rfl⟩
    · exact Or.inl ⟨p', h, hs, rfl, rfl, rfl⟩
  | @reap batch pid rc c hpc hc hst =>
    obtain ⟨p, hp, hrun, -⟩ := hi.pidOwner pid c.owner (hi.child pid c hc).2
    rw [Sys.reaped_objs hp] at h
    rcases getElem?_set_cases hp h with ⟨rfl, rfl⟩ | ⟨-, h⟩
    · exact Or.inl ⟨p, hp, ChildProcess.started_of_running hrun, rfl, rfl, rfl⟩
    · exact Or.inl ⟨p', h, hs, rfl, rfl, rfl⟩
  | signalled =>
    rw [signalReceived_objs] at h
    exact Or.inl ⟨p', h, hs, rfl, rfl, rfl⟩
  | signal =>
    rw [deliver_objs] at h
    exact Or.inl ⟨p', h, hs, rfl, rfl, rfl⟩

/-- Every child was forked in the run, by the object it belongs to. -/
theorem child_forked (h : Runs H progs tr s) {pid : ℤ} {ch : Child}
    (hc : s.kernel.children[pid]? = some ch) : ∃ t c out err, (t, Label.start c) ∈ tr ∧
      forkOf H t (.start c) = some ch.owner ∧ c.fork = some pid ∧ c.out = some out ∧ c.err = some err ∧
      ch.out = out.1 ∧ ch.err = err.1 := by
  induction h generalizing ch with
  | refl => simp [boot_kernel] at hc
  | @snoc tr s s' l h hs ih =>
    obtain ⟨-, -, he⟩ := run_effect h hs
    rcases child_of_effect he hc with ⟨ch₀, hc₀, hch⟩ | ⟨c, out, err, rfl, h1, h2⟩
    · obtain ⟨t, c, out, err, hm, hr⟩ := ih hc₀
      exact ⟨t, c, out, err, List.mem_append_left _ hm, by rw [hch.owner, hch.out, hch.err]; exact hr⟩
    · exact ⟨s, c, out, err, by simp, h1, h2⟩

/-- Every started process was forked in the run, with the descriptors it has. -/
theorem started_forked (h : Runs H progs tr s) {r : Ref} {p : ChildProcess} (hp : s.objs[r]? = some p)
    (hs : p.started) : ∃ t c, (t, Label.start c) ∈ tr ∧ forkOf H t (.start c) = some r ∧
      c.out = some p.stdout ∧ c.err = some p.stderr := by
  induction h generalizing p with
  | refl => exact absurd hs (boot_not_running hp).2
  | @snoc tr s s' l h hst ih =>
    obtain ⟨hi, -, he⟩ := run_effect h hst
    rcases started_of_effect (boot_wellFormed H progs) hi he hp hs with
      ⟨p₀, hp₀, hs₀, h1, h2, -⟩ | ⟨c, rfl, h1, h2, h3, -⟩
    · obtain ⟨t, c, hm, hr⟩ := ih hp₀ hs₀
      exact ⟨t, c, List.mem_append_left _ hm, by rw [h1, h2]; exact hr⟩
    · exact ⟨s, c, by simp, h1, h2, h3⟩

/-! ### The lifecycle -/

/-- In a run, `forkOf` is the start of the supervisor. -/
theorem actOf_start (h : Runs H progs tr s) (hs : step H s l = some s') {r : Ref}
    (hf : forkOf H s l = some r) : ∃ hlt : r < (boot H progs).objs.length,
      actOf H (boot H progs).objs.length s l = .start ⟨r, hlt⟩ := by
  obtain ⟨hi, -, -⟩ := run_effect h hs
  obtain ⟨c, _, _, p, rfl, -, hp, -⟩ := forkOf_eq_some hf
  have hlt := hi.lt_of_get hp
  exact ⟨hlt, by simp [actOf, hf, hlt]⟩

/-- A step moves each process one place along its life, or not at all. -/
theorem step_moves (h : Runs H progs tr s) (hs : step H s l = some s') {r : Ref} {p : ChildProcess}
    (hp : s.objs[r]? = some p) : ∃ p', s'.objs[r]? = some p' ∧
      (p'.state = p.state ∨ Moves p.state p'.state) := by
  obtain ⟨hi, -, he⟩ := run_effect h hs
  have hw := boot_wellFormed H progs
  have hlt := hi.lt_of_get hp
  obtain ⟨p', hp'⟩ : ∃ p', s'.objs[r]? = some p' :=
    ⟨_, List.getElem?_eq_getElem ((hi.step hw he).length.symm ▸ hlt)⟩
  have hm := Supervisor.step_moves (effect_refines hw hi he) ⟨r, hlt⟩
  rw [statesOf_eq (i := ⟨r, hlt⟩) hp, statesOf_eq (i := ⟨r, hlt⟩) hp'] at hm
  exact ⟨p', hp', hm⟩

/-- What no move of a process takes away stays. -/
theorem stateOf_stays {P : ProcessState → Prop} (hP : ∀ {a b}, Moves a b → P a → P b)
    (h : Runs H progs tr s) {v : Sys} (hv : v ∈ visited tr s) {r : Ref} {a : ProcessState}
    (ha : v.stateOf r = some a) (hPa : P a) : ∃ b, s.stateOf r = some b ∧ P b := by
  obtain ⟨pre, post, -, hpre, hpost⟩ := h.prefix_of_visited hv
  clear h hv
  induction hpost with
  | refl => exact ⟨a, ha, hPa⟩
  | snoc hpost hs ih =>
    obtain ⟨b, hb, hPb⟩ := ih
    obtain ⟨p, hp, rfl⟩ := Sys.stateOf_eq_some.mp hb
    obtain ⟨p', hp', hmove⟩ := step_moves (hpre.trans hpost) hs hp
    refine ⟨p'.state, Sys.stateOf_eq hp', ?_⟩
    rcases hmove with he | hm
    · rwa [he]
    · exact hP hm hPb

/-- Each process is forked at most once. -/
theorem fork_once (h : Runs H progs tr s) (r : Ref) :
    (tr.countP fun e => forkOf H e.1 e.2 = some r) ≤ 1 := by
  classical
  by_cases hlt : r < (boot H progs).objs.length
  · have h1 := Supervisor.start_once (run_refines h) ⟨r, hlt⟩
    rw [List.countP_map] at h1
    refine le_trans (List.countP_mono_left fun e he hf => ?_) h1
    obtain ⟨_, _, _, -, hpre, hs, -⟩ := h.step_of_mem he
    obtain ⟨_, ha⟩ := actOf_start hpre hs (of_decide_eq_true hf)
    exact decide_eq_true ha
  · refine le_of_eq_of_le (List.countP_eq_zero.mpr fun e he hf => hlt ?_) (Nat.zero_le 1)
    obtain ⟨_, _, _, -, hpre, hs, -⟩ := h.step_of_mem he
    obtain ⟨hlt, -⟩ := actOf_start hpre hs (of_decide_eq_true hf)
    exact hlt

/-- **Lifecycle.** Registration leaves every process BLOCKED or READY; each step
moves a process at most one place along its life; each process is forked at most
once; an exit ends the process that forked the child, and an exit of an unknown
pid changes nothing. -/
theorem lifecycle (h : Runs H progs tr s) :
    (∀ (r : Ref) (p₀ : ChildProcess), (fresh H progs)[r]? = some p₀ → p₀.state = .blocked ∧
      ∃ p, (boot H progs).objs[r]? = some p ∧ (p.state = .blocked ∨ p.state = .ready)) ∧
    (∀ t l t', (t, l) ∈ tr → step H t l = some t' → ∀ (r : Ref) (p : ChildProcess),
      t.objs[r]? = some p → ∃ p', t'.objs[r]? = some p' ∧
        (p'.state = p.state ∨ Moves p.state p'.state)) ∧
    (∀ r, (tr.countP fun e => forkOf H e.1 e.2 = some r) ≤ 1) ∧
    ∀ pre t pid rc post t', tr = pre ++ (t, .reap pid rc) :: post →
      step H t (.reap pid rc) = some t' →
      (∀ ch, t.kernel.children[pid]? = some ch →
        (∃ u c, (u, .start c) ∈ pre ∧ forkOf H u (.start c) = some ch.owner ∧ c.fork = some pid) ∧
        ∃ p, t.objs[ch.owner]? = some p ∧ p.state = .running ∧ p.primaryPid = pid ∧
          t'.objs = t.objs.set ch.owner { p with state := if rc = 0 then .done else .crashed }) ∧
      ((∀ ch, t.kernel.children[pid]? ≠ some ch) ↔ t.handler.idForPid[pid]? = none) ∧
      (t.handler.idForPid[pid]? = none → t' = t) := by
  refine ⟨fun r p₀ hp₀ => ?_, fun t l t' hm hs r p hp => ?_, fork_once h,
    fun pre t pid rc post t' htr hs => ?_⟩
  · have hb := boot_get H progs r
    rw [hp₀, Option.map_some] at hb
    rw [fresh_get, Option.map_eq_some_iff] at hp₀
    obtain ⟨g, -, rfl⟩ := hp₀
    exact ⟨rfl, _, hb, (boot_wellFormed H progs).state r _ hb⟩
  · obtain ⟨_, _, _, -, hpre, -, -⟩ := h.step_of_mem hm
    exact step_moves hpre hs hp
  · subst htr
    have hpre := h.split.1
    obtain ⟨hi, -, he⟩ := run_effect hpre hs
    cases he with
    | @reap batch _ _ c hpc hc hst =>
      obtain ⟨-, hid⟩ := hi.child pid c hc
      obtain ⟨p, hp, hrun, hpp, -⟩ := hi.pidOwner pid c.owner hid
      refine ⟨fun ch hch => ?_, ⟨fun hno => absurd hc (hno c), fun hno => ?_⟩, fun hno => ?_⟩
      · rw [hc, Option.some.injEq] at hch
        subst hch
        obtain ⟨u, c', _, _, hm, hf, hpid, -⟩ := child_forked hpre hc
        refine ⟨⟨u, c', hm, hf, hpid⟩, p, hp, hrun, hpp, ?_⟩
        rw [Sys.reaped_objs hp]
        simp [ChildProcess.handleProcessEvent]
      · rw [hid] at hno
        cases hno
      · rw [hid] at hno
        cases hno
    | reapUnknown hpc hc hid =>
      refine ⟨fun ch hch => ?_, ⟨fun _ => hid, fun _ ch hch => ?_⟩, fun _ => rfl⟩
      · rw [hc] at hch
        cases hch
      · rw [hc] at hch
        cases hch

theorem lifecycle_oneShot : (((trace (step bareHost) (boot bareHost [plain 'p' "simple" [] []])
    (oneShot 1)).countP fun e => forkOf bareHost e.1 e.2 = some 0) ≤ 1) :=
  (lifecycle (Run.of_isSome (by decide))).2.2.1 0

end Scinit
