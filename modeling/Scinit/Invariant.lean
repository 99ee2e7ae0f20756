/-
# The invariant of the event loop

`Ids` holds in every state, `Fds` in every state but those an exception left
(a start attempt that ends scinit leaves half of its work). Every step keeps
them; so every run does, and every step of a run is one of `Effect`.

Key theorems: `run_ids`, `run_fds`, `run_effect`, `run_inv_of`.
-/
import Scinit.Descriptors

namespace Scinit

open Transition

variable {H : Host} {progs : List Program} {tr : List (Sys × Label)} {s s' : Sys} {l : Label}

/-- Nothing goes on from where scinit ended. -/
theorem not_ended_of_step (h : step H s l = some s') : s.pc.ended = false := by
  cases hpc : s.pc <;> cases l <;> simp_all [step, Pc.ended]

theorem not_thrown_of_step (h : step H s l = some s') : s.pc.isThrown = false := by
  have he := not_ended_of_step h
  cases hpc : s.pc <;> simp_all [Pc.ended, Pc.isThrown]

/-! ### The start -/

theorem boot_tables (H : Host) (progs : List Program) :
    let h := (boot H progs).handler
    h.idForPid = ∅ ∧ h.idForFd = ∅ ∧ h.numFdForId = ∅ ∧ h.fdType = ∅ ∧ h.signalFd = -1 ∧
      h.numberOfRunningProcs = 0 ∧ h.shouldQuit = false := Config.ofPrograms_tables H progs

theorem boot_kernel (H : Host) (progs : List Program) : (boot H progs).kernel = {} := rfl

theorem boot_pc (H : Host) (progs : List Program) : (boot H progs).pc = .setup := rfl

theorem boot_not_running {r : Ref} {p : ChildProcess} (hp : (boot H progs).objs[r]? = some p) :
    p.state ≠ .running ∧ ¬ p.started := by
  rcases (boot_wellFormed H progs).state r p hp with h | h
  · exact ⟨by rw [h]; decide, fun hs => hs.1 h⟩
  · exact ⟨by rw [h]; decide, fun hs => hs.2 h⟩

theorem boot_streams (r : Ref) : streamsAt (boot H progs).objs r = none := by
  cases h : streamsAt (boot H progs).objs r with
  | none => rfl
  | some t =>
    obtain ⟨p, hp, hs, -⟩ := streamsAt_eq_some.mp h
    exact absurd hs (boot_not_running hp).2

theorem boot_ids (H : Host) (progs : List Program) : Ids (boot H progs).objs (boot H progs) := by
  obtain ⟨hpid, -⟩ := boot_tables H progs
  refine ⟨rfl, ?_, fun id => ?_, fun id => ?_, fun pid id h => ?_, fun pid c h => ?_,
    fun r p hp hrun => absurd hrun (boot_not_running hp).1⟩
  · rw [boot_allObjs, boot_length]
  · rw [boot_objForId, boot_length]
  · rw [boot_sigForId, boot_length]
  · simp [hpid] at h
  · simp [boot_kernel] at h

theorem boot_fds (H : Host) (progs : List Program) : Fds (boot H progs) := by
  obtain ⟨-, hid, -, htype, -⟩ := boot_tables H progs
  refine ⟨fun fd id h => ?_, fun fd h => ?_, fun fd => ?_, List.nodup_nil, Or.inl rfl,
    fun r name out err h => ?_, fun r r' t t' h => ?_, fun r name out err h => ?_, fun fd q h => ?_,
    fun _ => rfl, batchOk_nil _⟩
  · simp [hid] at h
  · simp [htype] at h
  · simp [hid, boot_kernel]
  · rw [boot_streams] at h
    cases h
  · rw [boot_streams] at h
    cases h
  · rw [boot_streams] at h
    cases h
  · simp [boot_kernel] at h

/-! ### Runs -/

/-- The runs of scinit on the entries `progs`. -/
abbrev Runs (H : Host) (progs : List Program) : List (Sys × Label) → Sys → Prop :=
  Run (step H) (boot H progs)

theorem run_inv (h : Runs H progs tr s) :
    Ids (boot H progs).objs s ∧ (s.pc.isThrown = false → Fds s) := by
  have hw := boot_wellFormed H progs
  refine h.inv (I := fun s => Ids (boot H progs).objs s ∧ (s.pc.isThrown = false → Fds s))
    ⟨boot_ids H progs, fun _ => boot_fds H progs⟩ ?_
  rintro s l s' ⟨hi, hf⟩ hs
  have hf := hf (not_thrown_of_step hs)
  have he := step_effect hi hf hs
  exact ⟨hi.step hw he, fun ht => hf.step hw hi he (Or.inr ht)⟩

theorem run_ids (h : Runs H progs tr s) : Ids (boot H progs).objs s := (run_inv h).1

theorem run_lt (h : Runs H progs tr s) {r : Ref} {p : ChildProcess} (hp : s.objs[r]? = some p) :
    r < progs.length := boot_length H progs ▸ (run_ids h).lt_of_get hp

/-- In a run without a failing `epoll_ctl`, `Fds` holds in every state. -/
theorem run_fds (h : Runs H progs tr s) (hl : ∀ e ∈ tr, e.2.epollOk = true) : Fds s := by
  cases h with
  | refl => exact boot_fds H progs
  | snoc h hs =>
    obtain ⟨hi, hf⟩ := run_inv h
    have hf := hf (not_thrown_of_step hs)
    have hl := hl _ (List.mem_append_right _ (List.mem_singleton_self _))
    exact hf.step (boot_wellFormed H progs) hi (step_effect hi hf hs) (Or.inl hl)

/-- What is known where a run goes on. -/
theorem run_effect (h : Runs H progs tr s) (hs : step H s l = some s') :
    Ids (boot H progs).objs s ∧ Fds s ∧ Effect H s l s' := by
  obtain ⟨hi, hf⟩ := run_inv h
  have hf := hf (not_thrown_of_step hs)
  exact ⟨hi, hf, step_effect hi hf hs⟩

/-- The invariant rule: the steps that meet `C` keep `I`, where the tables are right. -/
theorem run_inv_of {C : Sys → Label → Prop} {I : Sys → Prop} (h0 : I (boot H progs))
    (hstep : ∀ s l s', Ids (boot H progs).objs s → Fds s → I s → C s l → Effect H s l s' → I s')
    (h : Runs H progs tr s) (hC : ∀ e ∈ tr, C e.1 e.2) : I s := by
  induction h with
  | refl => exact h0
  | snoc h hs ih =>
    simp only [List.forall_mem_append, List.forall_mem_singleton] at hC
    obtain ⟨hi, hf, he⟩ := run_effect h hs
    exact hstep _ _ _ hi hf (ih hC.1) hC.2 he

/-! ### Calls that succeed -/

/-- Every call of `setup_signal_handlers` succeeds. -/
def setupOk : SetupCalls := ⟨true, some 3, some 4, true⟩

/-- Every call of a start attempt succeeds: its pipes are `fd` and `fd + 2`, its child is `pid`. -/
def startOk (fd pid : ℤ) : StartCalls :=
  ⟨some (fd, fd + 1), some (fd + 2, fd + 3), fun _ => .error ⟨25, by decide⟩, some pid, true, true⟩

theorem exists_above (fds : List ℤ) : ∃ f : ℤ, 0 ≤ f ∧ ∀ x ∈ fds, x < f := by
  induction fds with
  | nil => exact ⟨0, le_rfl, List.forall_mem_nil _⟩
  | cons y fds ih =>
    obtain ⟨f, h0, hf⟩ := ih
    refine ⟨max f (y + 1), le_max_of_le_left h0, List.forall_mem_cons.mpr ⟨?_, fun x hx => ?_⟩⟩
    · exact lt_of_lt_of_le (lt_add_one y) (le_max_right _ _)
    · exact lt_of_lt_of_le (hf x hx) (le_max_left _ _)

/-- There is always a pid that no child has. -/
theorem exists_pid (children : Map ℤ Child) : ∃ pid : ℤ, 0 < pid ∧ children[pid]? = none := by
  obtain ⟨f, h0, hf⟩ := exists_above children.keys
  refine ⟨f + 1, by omega, ?_⟩
  rw [← Option.not_isSome_iff_eq_none, ← Std.ExtTreeMap.mem_iff_isSome_getElem?, ← Std.ExtTreeMap.mem_keys]
  intro hm
  have hlt := hf _ hm
  omega

/-- Every call of a start attempt succeeds, of one with a terminal too. -/
def attemptOk (fd pid : ℤ) : StartCalls := { startOk fd pid with ttyname := fun _ => .ok [] }

theorem exists_mayStart (k : Kernel) : ∃ fd pid, k.MayStart (attemptOk fd pid) := by
  obtain ⟨f, h0, hf⟩ := exists_above k.fds
  obtain ⟨pid, hpos, hpid⟩ := exists_pid k.children
  have hnot : ∀ i : ℤ, 0 ≤ i → f + i ∉ k.fds := fun i hi hm => by
    have hlt := hf _ hm
    omega
  refine ⟨f, pid, ?_, ?_, ?_⟩
  · rintro p hp
    cases hp
    exact ⟨h0, by omega, by simpa using hnot 0 le_rfl, hnot 1 (by omega), by omega⟩
  · rintro p hp
    cases hp
    refine ⟨by omega, by omega, hnot 2 (by omega), hnot 3 (by omega), by omega, ?_⟩
    rintro q hq
    cases hq
    exact ⟨by omega, by omega, by omega, by omega⟩
  · rintro q hq
    cases hq
    exact ⟨hpos, hpid⟩

/-- One program is started, exits with `rc` and is reaped; then nothing is left to run. -/
def oneShot (rc : ℤ) : List Label :=
  [.setup setupOk, .notify, .start (startOk 10 100), .started, .notify, .start (startOk 20 101), .started,
    .epollWait [], .act (.exit 100 rc), .reap 100 rc, .reaped, .exitTest, .notify,
    .start (startOk 20 101), .started]

end Scinit
