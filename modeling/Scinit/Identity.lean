/-
# The ids stay right

`Ids` is kept by every step: by cases on what the step does. A fork adds a pid
that was nobody's, a reaped child takes its own away, and everything else
leaves the pid table and the running objects alone.

Key theorems: `Ids.congr`, `Ids.forked`, `Ids.reaped`, `Ids.step`.
-/
import Scinit.Effect
import Scinit.Outside

namespace Scinit

variable {base : Objs} {H : Host} {s s' : Sys} {l : Label}

/-- What `Ids` reads of an object. -/
def ChildProcess.pidView (p : ChildProcess) :
    (Text × ℕ × ProcessType × List (ℕ × ProcessState)) × Option ℤ :=
  (p.fixed, if p.state = .running then some p.primaryPid else none)

theorem running_of_pidView {p p' : ChildProcess} (h : p'.pidView = p.pidView) :
    (p'.state = .running ↔ p.state = .running) ∧ (p.state = .running → p'.primaryPid = p.primaryPid) := by
  simp only [ChildProcess.pidView, Prod.mk.injEq] at h
  have h2 := h.2
  split_ifs at h2 with h1 h3 <;> simp_all

/-- A step that keeps the tables and the running objects. -/
theorem Ids.congr (hi : Ids base s)
    (hobjs : ∀ r : Ref, s'.objs[r]?.map ChildProcess.pidView = s.objs[r]?.map ChildProcess.pidView)
    (hall : s'.handler.allObjs = s.handler.allObjs) (hobj : s'.handler.objForId = s.handler.objForId)
    (hsig : s'.handler.sigForId = s.handler.sigForId) (hpid : s'.handler.idForPid = s.handler.idForPid)
    (hchild : ∀ pid : ℤ, s'.kernel.children[pid]?.map Child.owner =
      s.kernel.children[pid]?.map Child.owner) : Ids base s' where
  fixed := by
    rw [← hi.fixed]
    refine List.ext_getElem? fun r => ?_
    have := congrArg (Option.map Prod.fst) (hobjs r)
    simpa [Option.map_map, Function.comp_def, ChildProcess.pidView] using this
  allObjs := hall.trans hi.allObjs
  objForId := hobj ▸ hi.objForId
  sigForId := hsig ▸ hi.sigForId
  pidOwner := fun pid id h => by
    obtain ⟨p, hp, hrun, hpp, hc⟩ := hi.pidOwner pid id (hpid ▸ h)
    have hr := hobjs id
    rw [hp, Option.map_some, Option.map_eq_some_iff] at hr
    obtain ⟨p', hp', hv⟩ := hr
    obtain ⟨h1, h2⟩ := running_of_pidView hv
    refine ⟨p', hp', h1.mpr hrun, (h2 hrun).trans hpp, hc.imp_right ?_⟩
    rintro ⟨c, hk, rfl⟩
    have := hchild pid
    rw [hk, Option.map_some, Option.map_eq_some_iff] at this
    exact this
  child := fun pid c' h => by
    have := hchild pid
    rw [h, Option.map_some, eq_comm, Option.map_eq_some_iff] at this
    obtain ⟨c, hc, ho⟩ := this
    rw [hpid, ← ho]
    exact hi.child pid c hc
  running := fun r p' hp' hrun => by
    have hr := hobjs r
    rw [hp', Option.map_some, eq_comm, Option.map_eq_some_iff] at hr
    obtain ⟨p, hp, hv⟩ := hr
    obtain ⟨h1, h2⟩ := running_of_pidView hv.symm
    rw [hpid, h2 (h1.mp hrun)]
    exact hi.running r p hp (h1.mp hrun)

/-- The fork keeps the tables: the new pid belongs to the object that forked. -/
theorem Ids.forked (hw : WellFormed base) (hi : Ids base s) {c : StartCalls} {ref : Ref}
    {p : ChildProcess} (hp : s.objs[ref]? = some p) (hr : p.state = .ready)
    (hk : s.kernel.MayStart c) (out err : ℤ × ℤ) (b b' : PtyName) (environment : List Text) :
    Ids base (s.forked c ref p out err b b' environment) := by
  have hother := hi.not_listed hp (by rw [hr]; decide)
  have hpid : ∀ pid, (s.forked c ref p out err b b' environment).handler.idForPid[pid]? =
      if c.fork.getD (-1) = pid then some ref else s.handler.idForPid[pid]? := fun pid => by
    simp only [Sys.forked, Std.ExtTreeMap.getElem?_insert, Std.LawfulEqCmp.compare_eq_iff_eq,
      hi.graphId hw hp]
  have hchild : ∀ pid, (s.forked c ref p out err b b' environment).kernel.children[pid]? =
      if c.fork = some pid then some (childOf ref p out err environment) else s.kernel.children[pid]? :=
    s.kernel.forked_child c out err _
  refine ⟨?_, hi.allObjs, hi.objForId, hi.sigForId, fun pid id h => ?_, fun pid ch h => ?_,
    fun r q hq hrun => ?_⟩
  · -- fixed
    rw [← hi.fixed]
    refine List.ext_getElem? fun r => ?_
    rw [List.getElem?_map, List.getElem?_map]
    exact map_getElem?_set hp (by rfl) r
  · -- pidOwner
    rw [hpid] at h
    by_cases he : c.fork.getD (-1) = pid
    · rw [if_pos he, Option.some.injEq] at h
      subst h
      refine ⟨p.forked c out err b b', List.getElem?_set_self (List.getElem?_eq_some_iff.mp hp).1, rfl, he, ?_⟩
      cases hf : c.fork with
      | none =>
        rw [hf] at he
        exact Or.inl he.symm
      | some pid' =>
        rw [hf, Option.getD_some] at he
        subst he
        exact Or.inr ⟨childOf ref p out err environment, by rw [hchild, if_pos hf], rfl⟩
    · rw [if_neg he] at h
      obtain ⟨q, hq, hrun, hpp, hc⟩ := hi.pidOwner pid id h
      have hne : ref ≠ id := fun h' => hother pid (h' ▸ h)
      refine ⟨q, (List.getElem?_set_ne hne).trans hq, hrun, hpp, hc.imp_right ?_⟩
      rintro ⟨ch, hch, ho⟩
      have hfork : c.fork ≠ some pid := fun hf => he (by rw [hf]; rfl)
      exact ⟨ch, by rw [hchild, if_neg hfork, hch], ho⟩
  · -- child
    rw [hchild] at h
    by_cases hf : c.fork = some pid
    · rw [if_pos hf, Option.some.injEq] at h
      subst h
      exact ⟨(hk.2.2 pid hf).1, by rw [hpid, hf]; exact if_pos rfl⟩
    · rw [if_neg hf] at h
      obtain ⟨hpos, ho⟩ := hi.child pid ch h
      have hne : c.fork.getD (-1) ≠ pid := fun he => by
        cases hc : c.fork with
        | none =>
          rw [hc, Option.getD_none] at he
          omega
        | some pid' =>
          rw [hc, Option.getD_some] at he
          exact hf (he ▸ hc)
      exact ⟨hpos, by rw [hpid, if_neg hne, ho]⟩
  · -- running
    rw [hpid]
    rcases getElem?_set_cases hp hq with ⟨rfl, rfl⟩ | ⟨-, hq⟩
    · exact Or.inr (if_pos rfl)
    · rcases hi.running r q hq hrun with h | h
      · exact Or.inl h
      · by_cases he : c.fork.getD (-1) = q.primaryPid
        · cases hf : c.fork with
          | none =>
            rw [hf] at he
            exact Or.inl he.symm
          | some pid =>
            -- a pid that `fork` returns is in no table
            rw [hf, Option.getD_some] at he
            subst he
            obtain ⟨hpos, hnone⟩ := hk.2.2 _ hf
            rw [hi.unlisted hpos hnone] at h
            cases h
        · exact Or.inr ((if_neg he).trans h)

/-- The reaped child's object ends, and its pid is forgotten. -/
theorem Ids.reaped (hi : Ids base s) {pid : ℤ} {c : Child} (hc : s.kernel.children[pid]? = some c)
    (rc : ℤ) : Ids base (s.reaped pid rc c.owner) := by
  obtain ⟨hpos, hid⟩ := hi.child pid c hc
  obtain ⟨p, hp, hrun, hpp, -⟩ := hi.pidOwner pid c.owner hid
  have hobjs := Sys.reaped_objs hp pid rc
  have hnot : (p.handleProcessEvent .exit rc).state ≠ .running := by
    simp only [ChildProcess.handleProcessEvent]
    split <;> decide
  refine ⟨?_, hi.allObjs, hi.objForId, hi.sigForId, fun pid' id h => ?_, fun pid' c' h => ?_,
    fun r q hq hrun' => ?_⟩
  · rw [← hi.fixed]
    refine List.ext_getElem? fun r => ?_
    rw [List.getElem?_map, List.getElem?_map, hobjs]
    exact map_getElem?_set hp (by rfl) r
  · simp only [Sys.reaped, Std.ExtTreeMap.getElem?_erase, Std.LawfulEqCmp.compare_eq_iff_eq,
      Option.ite_none_left_eq_some] at h
    obtain ⟨hne, h⟩ := h
    obtain ⟨q, hq, hqrun, hqpp, hch⟩ := hi.pidOwner pid' id h
    have hid' : id ≠ c.owner := by
      rintro rfl
      rw [hp, Option.some.injEq] at hq
      subst hq
      exact hne (hpp.symm.trans hqpp)
    refine ⟨q, ?_, hqrun, hqpp, hch.imp_right ?_⟩
    · simp [Sys.reaped, Ne.symm hid', hq]
    · rintro ⟨c', hc', ho⟩
      exact ⟨c', by simp [Sys.reaped, Kernel.reap, Std.ExtTreeMap.getElem?_erase, hne, hc'], ho⟩
  · simp only [Sys.reaped, Kernel.reap, Std.ExtTreeMap.getElem?_erase,
      Std.LawfulEqCmp.compare_eq_iff_eq, Option.ite_none_left_eq_some] at h ⊢
    exact ⟨(hi.child pid' c' h.2).1, h.1, (hi.child pid' c' h.2).2⟩
  · rw [hobjs] at hq
    rcases getElem?_set_cases hp hq with ⟨rfl, rfl⟩ | ⟨hne, hq⟩
    · exact absurd hrun' hnot
    · rcases hi.running r q hq hrun' with h | h
      · exact Or.inl h
      · refine Or.inr ?_
        simp only [Sys.reaped, Std.ExtTreeMap.getElem?_erase, Std.LawfulEqCmp.compare_eq_iff_eq]
        rw [if_neg, h]
        intro he
        rw [← he, hid, Option.some.injEq] at h
        exact hne h.symm

theorem Ids.step (hw : WellFormed base) (hi : Ids base s) (he : Effect H s l s') : Ids base s' := by
  cases he with
  | setup | setupFailed | skipped | started | epollWait | reaped | output | hungUp | eventFailed
  | exitTest =>
    exact hi.congr (fun _ => rfl) rfl rfl rfl rfl fun _ => rfl
  | notify =>
    refine hi.congr (fun r => ?_) rfl rfl rfl rfl fun _ => rfl
    rw [show ({ notifyAll s with pc := _ } : Sys).objs = (notifyAll s).objs from rfl,
      notifyAll_get (hi.sensible hw), Option.map_map]
    cases hp : s.objs[r]? with
    | none => rfl
    | some p =>
      simp only [Option.map_some, Function.comp_apply, Option.some.injEq]
      split
      · unfold ChildProcess.released
        split
        · rename_i h
          simp [ChildProcess.pidView, ChildProcess.fixed, h.1]
        · rfl
      · rfl
  | threw hpc hp hr hn hk =>
    refine hi.congr (map_getElem?_set hp (by rfl)) rfl rfl rfl rfl fun pid => ?_
    rw [← hk.children]
  | unregistered hpc hp hr hn hk =>
    exact (hi.forked hw hp hr hk _ _ _ _ _).congr (fun _ => rfl) rfl rfl rfl rfl fun _ => rfl
  | forked hpc hp hr hn hk =>
    exact (hi.forked hw hp hr hk _ _ _ _ _).congr (fun _ => rfl) rfl rfl rfl rfl fun _ => rfl
  | reap hpc hc hst => exact hi.reaped hc _
  | reapUnknown => exact hi
  | signalled =>
    rename_i n _ _ _ _
    obtain ⟨k, q, hk, he⟩ := signalReceived_eq n { s with kernel := _ }
    rw [he]
    exact hi.congr (fun _ => rfl) rfl rfl rfl rfl hk.owner
  | act _ ha => exact hi.congr (fun _ => rfl) rfl rfl rfl rfl (Kernel.acted ha).owner
  | @signal n =>
    have hh := deliver_handler H n s
    refine hi.congr (fun r => ?_) (by rw [hh]) (by rw [hh]) (by rw [hh]) (by rw [hh]) fun pid => ?_
    · rw [deliver_objs]
    · rw [deliver_children]

end Scinit
