/-
# What the tables of the handler say

Two invariants of the event loop. `Ids`: the ids are the places of the objects,
every id has its object and its signal, and the pid table lists the objects
that are running, with the pid of the child each of them forked. `Fds`: the
descriptor tables list the streams that are registered in epoll, each with the
process that opened it, and the counters count them.

Key definitions: `Ids`, `Fds`, `streamsAt`.
Key theorems: `Ids.get`, `Fds.congr`.
-/
import Scinit.Eventloop
import Scinit.Boot

namespace Scinit

instance (p : ChildProcess) : Decidable p.started := by
  unfold ChildProcess.started; infer_instance

/-- The ids, the objects and the pids. `base` are the objects registration left. -/
structure Ids (base : Objs) (s : Sys) : Prop where
  fixed : s.objs.map ChildProcess.fixed = base.map ChildProcess.fixed
  allObjs : s.handler.allObjs = List.range base.length
  objForId : ∀ id : ℕ, s.handler.objForId[id]? = if id < base.length then some (some id) else none
  sigForId : ∀ id : ℕ, s.handler.sigForId[(id : ℤ)]? = if id < base.length then some [id] else none
  pidOwner : ∀ (pid : ℤ) (id : ℕ), s.handler.idForPid[pid]? = some id →
    ∃ p, s.objs[id]? = some p ∧ p.state = .running ∧ p.primaryPid = pid ∧
      (pid = -1 ∨ ∃ c, s.kernel.children[pid]? = some c ∧ c.owner = id)
  child : ∀ (pid : ℤ) (c : Child), s.kernel.children[pid]? = some c →
    0 < pid ∧ s.handler.idForPid[pid]? = some c.owner
  running : ∀ (r : Ref) (p : ChildProcess), s.objs[r]? = some p → p.state = .running →
    p.primaryPid = -1 ∨ s.handler.idForPid[p.primaryPid]? = some r

namespace Ids

variable {base : Objs} {s : Sys}

theorem length (h : Ids base s) : s.objs.length = base.length := by
  simpa using congrArg List.length h.fixed

/-- An object keeps its name, id, type and conditions. -/
theorem get (h : Ids base s) {r : Ref} {p : ChildProcess} (hp : s.objs[r]? = some p) :
    ∃ p₀, base[r]? = some p₀ ∧ p.fixed = p₀.fixed := by
  have hr := congrArg (fun l => l[r]?) h.fixed
  simp only [List.getElem?_map, hp, Option.map_some] at hr
  obtain ⟨p₀, h0, he⟩ := Option.map_eq_some_iff.mp hr.symm
  exact ⟨p₀, h0, he.symm⟩

theorem get' (h : Ids base s) {r : Ref} {p₀ : ChildProcess} (hp : base[r]? = some p₀) :
    ∃ p, s.objs[r]? = some p ∧ p.fixed = p₀.fixed := by
  have hr := congrArg (fun l => l[r]?) h.fixed
  simp only [List.getElem?_map, hp, Option.map_some] at hr
  exact Option.map_eq_some_iff.mp hr

/-- An object in one state is there in the other. -/
theorem same (h : Ids base s) {t : Sys} (ht : Ids base t) {r : Ref} {p : ChildProcess}
    (hp : s.objs[r]? = some p) : ∃ q, t.objs[r]? = some q ∧ q.fixed = p.fixed := by
  obtain ⟨b, hb, hfix⟩ := h.get hp
  obtain ⟨q, hq, hfix'⟩ := ht.get' hb
  exact ⟨q, hq, hfix'.trans hfix.symm⟩

theorem lt_of_get (h : Ids base s) {r : Ref} {p : ChildProcess} (hp : s.objs[r]? = some p) :
    r < base.length := by
  rw [← h.length]
  exact (List.getElem?_eq_some_iff.mp hp).1

theorem graphId (h : Ids base s) (hw : WellFormed base) {r : Ref} {p : ChildProcess}
    (hp : s.objs[r]? = some p) : p.graphId = r := by
  obtain ⟨p₀, h0, he⟩ := h.get hp
  rw [ChildProcess.graphId_of_fixed he]
  exact hw.graphId r p₀ h0

theorem sensible (h : Ids base s) (hw : WellFormed base) : Sensible s.objs := by
  intro r p hp c hc
  obtain ⟨p₀, h0, he⟩ := h.get hp
  exact hw.sensible r p₀ h0 c (ChildProcess.conditions_of_fixed he ▸ hc)

theorem known (h : Ids base s) (hw : WellFormed base) {r : Ref} {p : ChildProcess}
    (hp : s.objs[r]? = some p) {c : ℕ × ProcessState} (hc : c ∈ p.conditions) :
    c.1 < base.length := by
  obtain ⟨p₀, h0, he⟩ := h.get hp
  exact hw.known r p₀ h0 c (ChildProcess.conditions_of_fixed he ▸ hc)

/-- A condition is fulfilled if the object it names is in the state it asks for. -/
theorem fulfilled_iff (h : Ids base s) {c : ℕ × ProcessState} (hc : c.1 < base.length) :
    ChildProcess.fulfilled s.objs s.handler.objForId c = true ↔
      s.objs[c.1]?.map ChildProcess.state = some c.2 := by
  have hlt : c.1 < s.objs.length := h.length ▸ hc
  simp [ChildProcess.fulfilled, h.objForId, hc, lock, List.getElem?_eq_getElem hlt]

/-- The pid table does not list an object that is not running. -/
theorem not_listed (h : Ids base s) {r : Ref} {p : ChildProcess} (hp : s.objs[r]? = some p)
    (hr : p.state ≠ .running) (pid : ℤ) : s.handler.idForPid[pid]? ≠ some r := by
  intro hid
  obtain ⟨q, hq, hrun, -⟩ := h.pidOwner pid r hid
  rw [hp, Option.some.injEq] at hq
  exact hr (hq ▸ hrun)

/-- A pid that no child has is not listed. -/
theorem unlisted (h : Ids base s) {pid : ℤ} (hpos : 0 < pid)
    (hnone : s.kernel.children[pid]? = none) : s.handler.idForPid[pid]? = none := by
  cases hid : s.handler.idForPid[pid]? with
  | none => rfl
  | some id =>
    obtain ⟨_, -, -, -, h | ⟨c, h, -⟩⟩ := h.pidOwner pid id hid
    · omega
    · rw [hnone] at h
      cases h

theorem insertIfNew_objForId (h : Ids base s) {id : ℕ} (hid : id < base.length) (i : ℕ) :
    (s.handler.objForId.insertIfNew id none)[i]? = s.handler.objForId[i]? := by
  have hmem : id ∈ s.handler.objForId := by
    rw [Std.ExtTreeMap.mem_iff_isSome_getElem?, h.objForId, if_pos hid]
    rfl
  rw [Std.ExtTreeMap.getElem?_insertIfNew]
  split
  · rename_i hc
    exact absurd hmem hc.2
  · rfl

end Ids

/-! ### Descriptors -/

/-- The name and the two descriptors of a process that was forked. -/
def ChildProcess.streams (p : ChildProcess) : Option (Text × ℤ × ℤ) :=
  if p.started then some (p.name, p.stdout.1, p.stderr.1) else none

def streamsAt (objs : Objs) (r : Ref) : Option (Text × ℤ × ℤ) :=
  (objs[r]?.map ChildProcess.streams).join

theorem streamsAt_eq_some {objs : Objs} {r : Ref} {t : Text × ℤ × ℤ} :
    streamsAt objs r = some t ↔
      ∃ p, objs[r]? = some p ∧ p.started ∧ (p.name, p.stdout.1, p.stderr.1) = t := by
  simp only [streamsAt, ChildProcess.streams, Option.join_eq_some_iff, Option.map_eq_some_iff,
    Option.ite_none_right_eq_some, Option.some.injEq]

theorem streamsAt_congr {objs objs' : Objs} {r : Ref}
    (h : objs'[r]?.map ChildProcess.streams = objs[r]?.map ChildProcess.streams) :
    streamsAt objs' r = streamsAt objs r := congrArg Option.join h

/-- What is left of the batch. -/
def Pc.batch : Pc → List Event
  | .reaping batch | .handling batch => batch
  | _ => []

/-- Before `setup_signal_handlers`. -/
def Pc.isSetup : Pc → Bool
  | .setup => true
  | _ => false

/-- After `setup_signal_handlers`, and before the end. -/
def Pc.inLoop (pc : Pc) : Bool := !pc.isSetup && !pc.ended

theorem Pc.inLoop_of_ne {pc : Pc} (h : pc ≠ .setup) (hend : pc.ended = false) : pc.inLoop = true := by
  cases pc with
  | setup => exact absurd rfl h
  | returned | thrown | killed => cases hend
  | _ => rfl

/-- How many of two descriptors are in the table. -/
def listed (m : Map ℤ ℕ) (out err : ℤ) : ℕ := [out, err].countP fun fd => decide (fd ∈ m)

/-- The descriptor tables, the epoll set and the open descriptors. -/
structure Fds (s : Sys) : Prop where
  stream : ∀ (fd : ℤ) (id : ℕ), s.handler.idForFd[fd]? = some id → ∃ name out err,
    streamsAt s.objs id = some (name, out, err) ∧
      (fd = out ∧ s.handler.fdType[fd]? = some .stdout ∨ fd = err ∧ s.handler.fdType[fd]? = some .stderr)
  types : ∀ fd : ℤ, fd ∈ s.handler.fdType → fd ∈ s.handler.idForFd
  epoll : ∀ fd : ℤ, fd ∈ s.kernel.epoll ∧ fd ≠ s.handler.signalFd ↔ fd ∈ s.handler.idForFd
  nodup : s.kernel.epoll.Nodup
  signalFd : s.pc = .setup ∨ s.pc.ended = true ∨ s.handler.signalFd ∈ s.kernel.fds
  opened : ∀ (r : Ref) (name : Text) (out err : ℤ), streamsAt s.objs r = some (name, out, err) →
    name ∈ s.loggers ∧ out ∈ s.kernel.fds ∧ err ∈ s.kernel.fds ∧ out ≠ err
  distinct : ∀ (r r' : Ref) (t t' : Text × ℤ × ℤ), streamsAt s.objs r = some t →
    streamsAt s.objs r' = some t' → r ≠ r' →
      t.2.1 ≠ t'.2.1 ∧ t.2.1 ≠ t'.2.2 ∧ t.2.2 ≠ t'.2.1 ∧ t.2.2 ≠ t'.2.2
  num : ∀ (r : Ref) (name : Text) (out err : ℤ), streamsAt s.objs r = some (name, out, err) →
    ∃ n, s.handler.numFdForId[r]? = some n ∧ n.toNat = listed s.handler.idForFd out err
  pipes : ∀ (fd : ℤ) (q : Pipe), s.kernel.pipes[fd]? = some q → fd ∈ s.kernel.fds
  unset : s.pc = .setup → s.kernel.epoll = []
  batch : (s.pc.batch.map Event.fd).Nodup ∧ ∀ e ∈ s.pc.batch, e.fd ∈ s.kernel.epoll ∧
    (e.epollin = true ∨ e.epollhup = true) ∧ (e.fd = s.handler.signalFd → e.epollhup = false)

/-- The entries of a batch: one for each descriptor, registered, and as `epoll_wait` reports them. -/
def BatchOk (s : Sys) (batch : List Event) : Prop :=
  (batch.map Event.fd).Nodup ∧ ∀ e ∈ batch, e.fd ∈ s.kernel.epoll ∧
    (e.epollin = true ∨ e.epollhup = true) ∧ (e.fd = s.handler.signalFd → e.epollhup = false)

theorem batchOk_nil (s : Sys) : BatchOk s [] := ⟨List.nodup_nil, List.forall_mem_nil _⟩

namespace Fds

variable {s s' : Sys}

/-- A step that keeps the tables and the epoll set keeps what is said of them. -/
theorem congr (h : Fds s) (hobjs : ∀ r, streamsAt s'.objs r = streamsAt s.objs r)
    (hid : s'.handler.idForFd = s.handler.idForFd) (htype : s'.handler.fdType = s.handler.fdType)
    (hnum : s'.handler.numFdForId = s.handler.numFdForId)
    (hsig : s'.handler.signalFd = s.handler.signalFd) (hepoll : s'.kernel.epoll = s.kernel.epoll)
    (hlog : s.loggers ⊆ s'.loggers) (hfds : s.kernel.fds ⊆ s'.kernel.fds)
    (hpipes : ∀ fd q, s'.kernel.pipes[fd]? = some q → fd ∈ s'.kernel.fds)
    (hpc : s'.pc = s.pc ∨ s.pc.inLoop = true ∧ s'.pc.isSetup = false)
    (hbatch : BatchOk s s'.pc.batch) : Fds s' where
  stream := fun fd id hfd => by
    rw [htype, hobjs]
    exact h.stream fd id (hid ▸ hfd)
  types := fun fd => by
    rw [htype, hid]
    exact h.types fd
  epoll := fun fd => by
    rw [hepoll, hsig, hid]
    exact h.epoll fd
  nodup := hepoll ▸ h.nodup
  signalFd := by
    rcases h.signalFd with hs | hs | hs
    · rcases hpc with he | ⟨hin, -⟩
      · exact Or.inl (he.trans hs)
      · rw [hs] at hin
        cases hin
    · rcases hpc with he | ⟨hin, -⟩
      · exact Or.inr (Or.inl (he ▸ hs))
      · rw [Pc.inLoop, hs, Bool.not_true, Bool.and_false] at hin
        cases hin
    · exact Or.inr (Or.inr (hsig ▸ hfds hs))
  opened := fun r name out err hr => by
    obtain ⟨h1, h2, h3, h4⟩ := h.opened r name out err (hobjs r ▸ hr)
    exact ⟨hlog h1, hfds h2, hfds h3, h4⟩
  distinct := fun r r' t t' hr hr' => h.distinct r r' t t' (hobjs r ▸ hr) (hobjs r' ▸ hr')
  num := fun r name out err hr => by
    rw [hnum, hid]
    exact h.num r name out err (hobjs r ▸ hr)
  pipes := hpipes
  unset := fun hs => by
    rcases hpc with he | ⟨-, hne⟩
    · exact hepoll ▸ h.unset (he ▸ hs)
    · rw [hs] at hne
      cases hne
  batch := by
    rw [hepoll, hsig]
    exact hbatch

/-- Going to another place keeps the tables, if the batch there is right. -/
theorem goto (h : Fds s) {pc : Pc} (hpc : s.pc.inLoop = true) (hpc' : pc.isSetup = false)
    (hbatch : BatchOk s pc.batch) : Fds { s with pc := pc } :=
  h.congr (fun _ => rfl) rfl rfl rfl rfl rfl (List.Subset.refl _) (List.Subset.refl _) h.pipes
    (Or.inr ⟨hpc, hpc'⟩) hbatch

/-- A descriptor of the tables is open. -/
theorem mem_fds (h : Fds s) {fd : ℤ} (hfd : fd ∈ s.handler.idForFd) : fd ∈ s.kernel.fds := by
  obtain ⟨id, hid⟩ := Option.isSome_iff_exists.mp (Std.ExtTreeMap.mem_iff_isSome_getElem?.mp hfd)
  obtain ⟨name, out, err, hs, ⟨rfl, -⟩ | ⟨rfl, -⟩⟩ := h.stream fd id hid
  · exact (h.opened _ _ _ _ hs).2.1
  · exact (h.opened _ _ _ _ hs).2.2.1

/-- The descriptor of an event of the batch that is not the signal's. -/
theorem of_batch (h : Fds s) {e : Event} (he : e ∈ s.pc.batch) (hs : e.fd ≠ s.handler.signalFd) :
    ∃ id, s.handler.idForFd[e.fd]? = some id := by
  have hm := (h.epoll e.fd).mp ⟨(h.batch.2 e he).1, hs⟩
  exact Option.isSome_iff_exists.mp (Std.ExtTreeMap.mem_iff_isSome_getElem?.mp hm)

end Fds

end Scinit
