/-
# What a configuration comes to

When entries wait for others to be done, as oneshot programs do, the timing of a
run does not matter: which processes have run when the event loop returns, and
how they ended, follows from the entries and from how each program exits. A
process runs if all that it awaits run and exit with 0 (`GetsToRun`). Programs
that wait for others to be running have no such outcome (`missed_wakeup`).

Key definitions: `GetsToRun`, `ExitsBy`.
Key theorems: `getsToRun_iff`, `settled_of_returned`, `state_of_settled`, `outcome`.
-/
import Scinit.Precedence

namespace Scinit

open Transition

variable {H : Host} {progs : List Program} {tr : List (Sys × Label)} {s : Sys} {l : Label} {r q : Ref}
  {verdict : Ref → Bool}

/-- The entries that get to run when each program that gets to run exits as `verdict` says. -/
inductive GetsToRun (progs : List Program) (verdict : Ref → Bool) : Ref → Prop
  | mk {r : Ref} : r < progs.length → (∀ q, Awaits progs r q → GetsToRun progs verdict q) →
      (∀ q, Awaits progs r q → verdict q = true) → GetsToRun progs verdict r

/-- Every program reaped in the steps has exited as `verdict` says. -/
def ExitsBy (verdict : Ref → Bool) (tr : List (Sys × Label)) : Prop :=
  ∀ t pid rc, (t, Label.reap pid rc) ∈ tr → ∀ ch, t.kernel.children[pid]? = some ch →
    (rc = 0 ↔ verdict ch.owner = true)

/-! ### To the supervisor -/

/-- A condition of a process that registration left blocked is awaited. -/
theorem awaits_of_condition {p₀ : ChildProcess} (hp₀ : (boot H progs).objs[r]? = some p₀)
    (hb : p₀.state = .blocked) {st : ProcessState} (hc : (q, st) ∈ p₀.conditions) : Awaits progs r q := by
  have hw := boot_wellFormed H progs
  have hr : r < progs.length := boot_length H progs ▸ (List.getElem?_eq_some_iff.mp hp₀).1
  have hq : q < progs.length := boot_length H progs ▸ hw.known r p₀ hp₀ _ hc
  obtain ⟨g, hg⟩ : ∃ g, progs[r]? = some g := ⟨_, List.getElem?_eq_getElem hr⟩
  obtain ⟨g', hg'⟩ : ∃ g', progs[q]? = some g' := ⟨_, List.getElem?_eq_getElem hq⟩
  refine ⟨g, g', hg, hg', ((boot_condition_iff hp₀ hg hg').mp hc).1, ?_⟩
  by_contra hearly
  have hready := (boot_ready_iff hp₀ hg).mpr hearly
  rw [hb] at hready
  cases hready

/-- The entries that get to run are the processes the supervisor can run. -/
theorem getsToRun_iff (H : Host) (i : Fin (boot H progs).objs.length) : GetsToRun progs verdict i.val ↔
    Supervisor.Runnable (needsOf (boot H progs).objs) (statesOf _ (boot H progs)) (fun j => verdict j.val) i := by
  have hw := boot_wellFormed H progs
  have hget : ∀ j : Fin (boot H progs).objs.length, ∃ p, (boot H progs).objs[j.val]? = some p :=
    fun j => ⟨_, List.getElem?_eq_getElem j.isLt⟩
  constructor
  · suffices ∀ r, GetsToRun progs verdict r → ∀ hlt : r < (boot H progs).objs.length,
        Supervisor.Runnable (needsOf (boot H progs).objs) (statesOf _ (boot H progs)) (fun j => verdict j.val)
          ⟨r, hlt⟩ from fun h => this i.val h i.isLt
    intro r h
    induction h with
    | @mk r hr _ hgood ih =>
      intro hlt
      obtain ⟨p₀, hp₀⟩ := hget ⟨r, hlt⟩
      rcases hw.state _ p₀ hp₀ with hb | hready
      · have hawaits : ∀ n ∈ needsOf (boot H progs).objs ⟨r, hlt⟩, Awaits progs r n.1.val := by
          rintro n ⟨p, hp, hn⟩
          rw [hp₀, Option.some.injEq] at hp
          subst hp
          exact awaits_of_condition hp₀ hb hn
        exact .released (fun n hn => ih n.1.val (hawaits n hn) n.1.isLt) fun n hn => hgood n.1.val (hawaits n hn)
      · refine .ready ?_
        rw [statesOf_eq (i := ⟨_, hlt⟩) hp₀, hready]
        decide
  · intro h
    have hlt : ∀ j : Fin (boot H progs).objs.length, j.val < progs.length := fun j => boot_length H progs ▸ j.isLt
    induction h with
    | @ready i hi =>
      have hno : ∀ q, ¬ Awaits progs i.val q := by
        intro q hq
        obtain ⟨p₀, st, hp₀, hb, -⟩ := hq.condition H
        exact hi ((statesOf_eq hp₀).trans hb)
      exact .mk (hlt i) (fun q hq => absurd hq (hno q)) fun q hq => absurd hq (hno q)
    | @released i _ hgood ih =>
      have hneed : ∀ q, Awaits progs i.val q → ∃ n ∈ needsOf (boot H progs).objs i, n.1.val = q := by
        intro q hq
        obtain ⟨p₀, st, hp₀, -, hc, -⟩ := hq.condition H
        exact ⟨(⟨q, hw.known _ p₀ hp₀ _ hc⟩, st), ⟨p₀, hp₀, hc⟩, rfl⟩
      refine .mk (hlt i) (fun q hq => ?_) fun q hq => ?_
      · obtain ⟨n, hn, rfl⟩ := hneed q hq
        exact ih n hn
      · obtain ⟨n, hn, rfl⟩ := hneed q hq
        exact hgood n hn

/-- A process ends for the supervisor when its child is reaped. -/
theorem actOf_finish {n : ℕ} {i : Fin n} {ok : Bool} (h : actOf H n s l = .finish i ok) :
    ∃ pid rc ch, l = .reap pid rc ∧ s.kernel.children[pid]? = some ch ∧ ch.owner = i.val ∧
      ok = decide (rc = 0) := by
  cases l with
  | reap pid rc =>
    simp only [actOf] at h
    cases hc : s.kernel.children[pid]? with
    | none => simp [hc] at h
    | some ch =>
      simp only [hc] at h
      split at h
      · cases h
        exact ⟨pid, rc, ch, rfl, hc, rfl, rfl⟩
      · cases h
  | notify => cases h
  | _ =>
    simp only [actOf] at h
    split at h
    · split at h <;> cases h
    · cases h

theorem endsBy_of_exitsBy (hv : ExitsBy verdict tr) (n : ℕ) : Supervisor.EndsBy (fun i : Fin n => verdict i.val)
    (tr.map fun e => (statesOf n e.1, actOf H n e.1 e.2)) := by
  intro e he i ok hok
  obtain ⟨⟨t, l⟩, hm, rfl⟩ := List.mem_map.mp he
  obtain ⟨pid, rc, ch, rfl, hc, ho, rfl⟩ := actOf_finish hok
  have hiff := hv t pid rc hm ch hc
  rw [ho] at hiff
  exact Bool.eq_iff_iff.mpr (decide_eq_true_iff.trans hiff)

/-- When the event loop has returned of itself and no attempt threw, nothing is left to do. -/
theorem settled_of_returned (h : Runs H progs tr s) (hpc : s.pc = .returned 0) (hq : s.handler.shouldQuit = false)
    (hno : ∀ e ∈ tr, throwOf H e.1 e.2 = none) :
    Supervisor.Settled (needsOf (boot H progs).objs) (statesOf (boot H progs).objs.length s) := by
  have hlen := (run_ids h).length
  refine ⟨fun i hready => ?_, fun i hrun => ?_, fun i hb hheld => ?_⟩
  · rw [statesOf_iff hlen] at hready
    obtain ⟨u, c, hm, ht⟩ := threw_of_ready h hpc hq hready
    have hnone := hno _ hm
    rw [throwOf_of_threw ht] at hnone
    cases hnone
  · rw [statesOf_iff hlen, Sys.stateOf_eq_some] at hrun
    obtain ⟨p, hp, hst⟩ := hrun
    exact not_running_of_returned h hpc hp hst
  · obtain ⟨j, n, hn, rfl, hne⟩ := stuck_of_returned h hpc hq hb
    exact hne (hheld n hn)

/-- Oneshot programs wait for others to be done. -/
theorem done_of_oneshot (hkind : ∀ g ∈ progs, (g.before = [] ∧ g.after = []) ∨ g.kind = .oneshot)
    (i : Fin (boot H progs).objs.length) : ∀ n ∈ needsOf (boot H progs).objs i, n.2 = .done := by
  rintro ⟨q, st⟩ ⟨p₀, hp₀, hc⟩
  have hlt : ∀ j : Fin (boot H progs).objs.length, j.val < progs.length := fun j => boot_length H progs ▸ j.isLt
  obtain ⟨g, hg⟩ : ∃ g, progs[i.val]? = some g := ⟨_, List.getElem?_eq_getElem (hlt i)⟩
  obtain ⟨g', hg'⟩ : ∃ g', progs[q.val]? = some g' := ⟨_, List.getElem?_eq_getElem (hlt q)⟩
  have hdone : ∀ {g : Program}, g ∈ progs → (g.before ≠ [] ∨ g.after ≠ []) → g.startedAs = .done := by
    intro g hm hne
    rcases hkind g hm with ⟨hb, ha⟩ | hk
    · exact absurd (And.intro hb ha) (by tauto)
    · exact if_pos hk
  obtain ⟨hwaits, hst⟩ := (boot_condition_iff hp₀ hg hg').mp hc
  rw [hst]
  split
  · rename_i h
    exact hdone (List.mem_of_getElem? hg') (Or.inl (List.ne_nil_of_mem h.1))
  · rename_i h
    refine hdone (List.mem_of_getElem? hg) (Or.inr ?_)
    rcases hwaits with ha | hb
    · exact List.ne_nil_of_mem ha
    · by_contra hnil
      exact h ⟨hb, Or.inr (by rw [hnil]; exact List.not_mem_nil)⟩

/-! ### The outcome -/

open Classical in
/-- When nothing is left to do, exactly the entries that get to run have run, if they
all wait for others to be done. -/
theorem state_of_settled (h : Runs H progs tr s)
    (hdone : ∀ i, ∀ n ∈ needsOf (boot H progs).objs i, n.2 = .done)
    (hset : Supervisor.Settled (needsOf (boot H progs).objs) (statesOf (boot H progs).objs.length s))
    (hv : ExitsBy verdict tr) (hr : r < progs.length) : s.stateOf r =
      some (if GetsToRun progs verdict r then (if verdict r = true then .done else .crashed) else .blocked) := by
  have hw := boot_wellFormed H progs
  have hlt : r < (boot H progs).objs.length := boot_length H progs ▸ hr
  have h0 : ∀ i : Fin (boot H progs).objs.length, statesOf _ (boot H progs) i = .blocked ∨
      statesOf _ (boot H progs) i = .ready := by
    intro i
    obtain ⟨p, hp⟩ : ∃ p, (boot H progs).objs[i.val]? = some p := ⟨_, List.getElem?_eq_getElem i.isLt⟩
    rw [statesOf_eq hp]
    exact hw.state _ p hp
  have hout := Supervisor.outcome_eq hdone h0 (run_refines h) (endsBy_of_exitsBy hv _) hset ⟨r, hlt⟩
  rw [statesOf_iff (run_ids h).length] at hout
  rw [hout, if_congr (getsToRun_iff H ⟨r, hlt⟩).symm rfl rfl]

open Classical in
/-- **The outcome** of a configuration whose dependencies are all declared by
oneshot programs: when the event loop has returned, no signal asked it to and no
attempt threw, exactly the entries that get to run have run, and each has ended
as its program exits. -/
theorem outcome (h : Runs H progs tr s) (hpc : s.pc = .returned 0) (hq : s.handler.shouldQuit = false)
    (hno : ∀ e ∈ tr, throwOf H e.1 e.2 = none)
    (hkind : ∀ g ∈ progs, (g.before = [] ∧ g.after = []) ∨ g.kind = .oneshot) (hv : ExitsBy verdict tr)
    (hr : r < progs.length) : s.stateOf r =
      some (if GetsToRun progs verdict r then (if verdict r = true then .done else .crashed) else .blocked) :=
  state_of_settled h (done_of_oneshot hkind) (settled_of_returned h hpc hq hno) hv hr

theorem awaits_chainAB (h : Awaits chainAB r q) : r = 1 ∧ q = 0 := by
  obtain ⟨g, g', hg, hg', hwaits, -⟩ := h
  have hr : r < 2 := (List.getElem?_eq_some_iff.mp hg).1
  have hq : q < 2 := (List.getElem?_eq_some_iff.mp hg').1
  interval_cases r <;> interval_cases q <;> cases hg <;> cases hg' <;> revert hwaits <;>
    simp [Program.WaitsFor, plain]

/-- In `chainAB` both get to run if both exit with 0. -/
theorem getsToRun_chainAB : GetsToRun chainAB (fun _ => true) 1 := by
  refine .mk (by decide) (fun q hq => ?_) fun _ _ => rfl
  obtain ⟨-, rfl⟩ := awaits_chainAB hq
  exact .mk (by decide) (fun q hq => absurd (awaits_chainAB hq).1 (by decide)) fun _ _ => rfl

/-- Every program that is reaped has exited with 0. -/
def Label.exitOk : Label → Bool
  | .reap _ rc => rc = 0
  | _ => true

theorem exitsBy_bDone : ExitsBy (fun _ => true)
    (trace (step bareHost) (boot bareHost chainAB) (aDone ++ .notify :: bDone)) := by
  intro t pid rc hm _ _
  have hall : ∀ l ∈ aDone ++ .notify :: bDone, l.exitOk = true := by decide
  have hok := hall _ (label_mem_of_mem_trace hm)
  exact ⟨fun _ => rfl, fun _ => of_decide_eq_true hok⟩

theorem outcome_chainAB : ((exec (step bareHost) (boot bareHost chainAB) (aDone ++ .notify :: bDone)).get
    bDone_possible).stateOf 1 = some .done := by
  rw [outcome (Run.of_isSome bDone_possible) (by decide) (by decide) (by decide) (by decide) exitsBy_bDone
    (by decide), if_pos getsToRun_chainAB, if_pos rfl]

end Scinit
