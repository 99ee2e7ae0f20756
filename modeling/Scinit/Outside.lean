/-
# What changes around scinit

The frame of the kernel's operations: what the acts of the children, the
signals sent to them, a signal sent to scinit and a fork leave as it was.

Key definitions: `Kernel.Acted`, `Kernel.Killed`.
Key theorems: `Kernel.acted`, `signalReceived_eq`, `deliver_cases`.
-/
import Scinit.Starting
import Scinit.Eventloop

namespace Scinit

/-! ### The children -/

/-- What a child does, it does to pipes, to its status and to the pending signals. -/
structure Kernel.Acted (k k' : Kernel) : Prop where
  fds : k'.fds = k.fds
  epoll : k'.epoll = k.epoll
  mask : k'.mask = k.mask
  size : k'.children.size = k.children.size
  child : ∀ (pid : ℤ) (c' : Child), k'.children[pid]? = some c' → ∃ c st,
    k.children[pid]? = some c ∧ c' = { c with status := st } ∧ (c.status = st ∨ c.status = none)
  kept : ∀ (pid : ℤ) (c : Child), k.children[pid]? = some c → ∃ st,
    k'.children[pid]? = some { c with status := st }
  pipe : ∀ (fd : ℤ) (q' : Pipe), k'.pipes[fd]? = some q' → ∃ q, k.pipes[fd]? = some q

theorem Kernel.enqueue_eq (k : Kernel) (n : ℕ) : ∃ p, k.enqueue n = { k with pending := p } := by
  unfold Kernel.enqueue
  split
  · exact ⟨_, rfl⟩
  · exact ⟨k.pending, rfl⟩

theorem Kernel.acted_pipe (k : Kernel) {fd : ℤ} {q : Pipe} (hq : k.pipes[fd]? = some q) (q' : Pipe) :
    k.Acted { k with pipes := k.pipes.insert fd q' } := by
  refine ⟨rfl, rfl, rfl, rfl, fun pid c hc => ⟨c, c.status, hc, rfl, Or.inl rfl⟩,
    fun pid c hc => ⟨c.status, hc⟩, fun fd' p hp => ?_⟩
  by_cases h : fd = fd'
  · exact ⟨q, h ▸ hq⟩
  · exact ⟨p, by simpa [Std.ExtTreeMap.getElem?_insert, h] using hp⟩

theorem Kernel.acted {k k' : Kernel} {a : Act} (h : k.act a = some k') : k.Acted k' := by
  cases a with
  | write pid stream bytes =>
    simp only [Kernel.act] at h
    split at h
    · cases h
    · split at h
      · cases h
      · rename_i q hq
        simp only [Option.ite_none_right_eq_some, Option.some.injEq] at h
        obtain ⟨-, rfl⟩ := h
        exact k.acted_pipe hq _
  | exit pid status =>
    simp only [Kernel.act] at h
    split at h
    · cases h
    · rename_i c hc
      simp only [Option.ite_none_right_eq_some, Option.some.injEq] at h
      obtain ⟨hst, rfl⟩ := h
      obtain ⟨p, hp⟩ := Kernel.enqueue_eq
        { k with children := k.children.insert pid { c with status := some status } } sigChld
      rw [hp]
      have hm : pid ∈ k.children := by rw [Std.ExtTreeMap.mem_iff_isSome_getElem?, hc]; rfl
      refine ⟨rfl, rfl, rfl, ?_, fun pid' c' hc' => ?_, fun pid' c₁ hc₁ => ?_, fun fd q hq => ⟨q, hq⟩⟩
      · simp [Std.ExtTreeMap.size_insert, hm]
      · simp only [Std.ExtTreeMap.getElem?_insert, Std.LawfulEqCmp.compare_eq_iff_eq] at hc'
        by_cases he : pid = pid'
        · subst he
          rw [if_pos rfl, Option.some.injEq] at hc'
          exact ⟨c, some status, hc, hc'.symm, Or.inr hst⟩
        · rw [if_neg he] at hc'
          exact ⟨c', c'.status, hc', rfl, Or.inl rfl⟩
      · simp only [Std.ExtTreeMap.getElem?_insert, Std.LawfulEqCmp.compare_eq_iff_eq]
        by_cases he : pid = pid'
        · subst he
          rw [hc, Option.some.injEq] at hc₁
          subst hc₁
          exact ⟨some status, if_pos rfl⟩
        · rw [if_neg he]
          exact ⟨c₁.status, hc₁⟩
  | hangup fd =>
    simp only [Kernel.act] at h
    split at h
    · cases h
    · rename_i q hq
      cases h
      exact k.acted_pipe hq _

/-- A signal to the children changes what they were sent and nothing else. -/
structure Kernel.Killed (k k' : Kernel) : Prop where
  same : ∃ children, k' = { k with children := children }
  child : ∀ pid : ℤ, ∃ f : Child → List ℕ, k'.children[pid]? = k.children[pid]?.map fun c =>
    { c with signals := c.signals ++ f c }
  size : k'.children.size = k.children.size

theorem Kernel.Killed.refl (k : Kernel) : k.Killed k :=
  ⟨⟨_, rfl⟩, fun _ => ⟨fun _ => [], by simp⟩, rfl⟩

theorem Kernel.Killed.trans {k k' k'' : Kernel} (h : k.Killed k') (h' : k'.Killed k'') : k.Killed k'' := by
  obtain ⟨_, rfl⟩ := h.same
  obtain ⟨m, rfl⟩ := h'.same
  refine ⟨⟨m, rfl⟩, fun pid => ?_, h'.size.trans h.size⟩
  obtain ⟨f, hf⟩ := h.child pid
  obtain ⟨g, hg⟩ := h'.child pid
  refine ⟨fun c => f c ++ g { c with signals := c.signals ++ f c }, ?_⟩
  rw [hg, hf, Option.map_map]
  simp only [Function.comp_def, List.append_assoc]

theorem Kernel.killed_kill (k : Kernel) (pid : ℤ) (n : ℕ) : k.Killed (k.kill pid n) := by
  refine ⟨⟨_, rfl⟩, fun q => ?_, ?_⟩
  · unfold Kernel.kill
    by_cases h : pid = -1
    · exact ⟨fun _ => [n], by simp [h, Std.ExtTreeMap.getElem?_map]⟩
    · simp only [h, if_false, Std.ExtTreeMap.getElem?_modify]
      by_cases hq : pid = q
      · exact ⟨fun _ => [n], by simp [hq]⟩
      · exact ⟨fun _ => [], by simp [hq]⟩
  · unfold Kernel.kill
    by_cases h : pid = -1
    · simp [h]
    · simp [h, Std.ExtTreeMap.size_modify]

/-- `signal_received` sends signals and sets `should_quit`. -/
theorem signalReceived_eq (n : ℕ) (s : Sys) : ∃ k q, s.kernel.Killed k ∧
    signalReceived n s = { s with kernel := k, handler := { s.handler with shouldQuit := q } } := by
  unfold signalReceived
  split
  · exact ⟨s.kernel, s.handler.shouldQuit, .refl _, rfl⟩
  · refine ⟨_, _, ?_, rfl⟩
    generalize s.handler.idForPid.toList = pids
    generalize (if n = sigInt then sigTerm else n) = n'
    induction pids using List.reverseRecOn with
    | nil => exact .refl _
    | append_singleton ps p ih =>
      rw [List.foldl_append]
      exact ih.trans (Kernel.killed_kill _ _ _)

@[simp] theorem signalReceived_objs (n : ℕ) (s : Sys) : (signalReceived n s).objs = s.objs := by
  obtain ⟨k, q, -, h⟩ := signalReceived_eq n s
  rw [h]

@[simp] theorem signalReceived_loggers (n : ℕ) (s : Sys) : (signalReceived n s).loggers = s.loggers := by
  obtain ⟨k, q, -, h⟩ := signalReceived_eq n s
  rw [h]

@[simp] theorem signalReceived_numberOfRunningProcs (n : ℕ) (s : Sys) :
    (signalReceived n s).handler.numberOfRunningProcs = s.handler.numberOfRunningProcs := by
  obtain ⟨k, q, -, h⟩ := signalReceived_eq n s
  rw [h]

theorem Kernel.Acted.owner {k k' : Kernel} (h : k.Acted k') (pid : ℤ) :
    k'.children[pid]?.map Child.owner = k.children[pid]?.map Child.owner := by
  cases hc : k'.children[pid]? with
  | some c' =>
    obtain ⟨c, st, hc', rfl, -⟩ := h.child pid c' hc
    simp [hc']
  | none =>
    cases hc' : k.children[pid]? with
    | none => rfl
    | some c =>
      obtain ⟨st, hst⟩ := h.kept pid c hc'
      rw [hc] at hst
      cases hst

theorem Kernel.Killed.owner {k k' : Kernel} (h : k.Killed k') (pid : ℤ) :
    k'.children[pid]?.map Child.owner = k.children[pid]?.map Child.owner := by
  obtain ⟨f, hf⟩ := h.child pid
  rw [hf, Option.map_map]
  rfl

/-! ### A signal sent to scinit -/

theorem deliver_cases (H : Host) (n : ℕ) (s : Sys) :
    (∃ p, deliver H n s = { s with kernel := { s.kernel with pending := p } }) ∨
      (n ∉ s.kernel.mask ∧ (H.isPid1 = false ∧ n ∉ harmlessSignals) ∧ deliver H n s = { s with pc := .killed n }) := by
  unfold deliver
  by_cases hm : n ∈ s.kernel.mask
  · obtain ⟨p, hp⟩ := Kernel.enqueue_eq s.kernel n
    exact Or.inl ⟨p, by rw [if_pos hm, hp]⟩
  · rw [if_neg hm]
    by_cases h1 : H.isPid1 = true ∨ n ∈ harmlessSignals
    · rw [if_pos h1]
      exact Or.inl ⟨s.kernel.pending, rfl⟩
    · rw [if_neg h1]
      rw [not_or] at h1
      exact Or.inr ⟨hm, ⟨by simpa using h1.1, h1.2⟩, rfl⟩

/-- It changes nothing but the pending signals and the place. -/
@[simp] theorem deliver_objs (H : Host) (n : ℕ) (s : Sys) : (deliver H n s).objs = s.objs := by
  rcases deliver_cases H n s with ⟨p, h⟩ | ⟨-, -, h⟩ <;> rw [h]

@[simp] theorem deliver_handler (H : Host) (n : ℕ) (s : Sys) : (deliver H n s).handler = s.handler := by
  rcases deliver_cases H n s with ⟨p, h⟩ | ⟨-, -, h⟩ <;> rw [h]

@[simp] theorem deliver_loggers (H : Host) (n : ℕ) (s : Sys) : (deliver H n s).loggers = s.loggers := by
  rcases deliver_cases H n s with ⟨p, h⟩ | ⟨-, -, h⟩ <;> rw [h]

@[simp] theorem deliver_children (H : Host) (n : ℕ) (s : Sys) :
    (deliver H n s).kernel.children = s.kernel.children := by
  rcases deliver_cases H n s with ⟨p, h⟩ | ⟨-, -, h⟩ <;> rw [h]

@[simp] theorem deliver_pipes (H : Host) (n : ℕ) (s : Sys) : (deliver H n s).kernel.pipes = s.kernel.pipes := by
  rcases deliver_cases H n s with ⟨p, h⟩ | ⟨-, -, h⟩ <;> rw [h]

/-- Where scinit is not killed it stays where it is. -/
theorem pc_of_deliver {H : Host} {n : ℕ} {s : Sys} (h : ∀ m, (deliver H n s).pc ≠ .killed m) :
    (deliver H n s).pc = s.pc := by
  rcases deliver_cases H n s with ⟨p, hd⟩ | ⟨-, -, hd⟩
  · rw [hd]
  · exact absurd (congrArg Sys.pc hd) (h n)

/-! ### A fork -/

@[simp] theorem Kernel.closeWriteEnd_children (k : Kernel) (p : ℤ × ℤ) (b : Bool) :
    (k.closeWriteEnd p b).children = k.children := rfl

@[simp] theorem Kernel.closeWriteEnd_fds (k : Kernel) (p : ℤ × ℤ) (b : Bool) :
    (k.closeWriteEnd p b).fds = k.fds.erase p.2 := rfl

@[simp] theorem Kernel.closeWriteEnd_epoll (k : Kernel) (p : ℤ × ℤ) (b : Bool) :
    (k.closeWriteEnd p b).epoll = k.epoll := rfl

@[simp] theorem Kernel.forked_epoll (k : Kernel) (c : StartCalls) (out err : ℤ × ℤ) (child : Child) :
    (k.forked c out err child).epoll = k.epoll := by
  unfold Kernel.forked
  cases c.fork <;> rfl

theorem Kernel.forked_children (k : Kernel) (c : StartCalls) (out err : ℤ × ℤ) (child : Child) :
    (k.forked c out err child).children =
      match c.fork with
      | some pid => k.children.insert pid child
      | none => k.children := by
  unfold Kernel.forked
  cases c.fork <;> rfl

theorem Kernel.forked_child (k : Kernel) (c : StartCalls) (out err : ℤ × ℤ) (child : Child) (pid : ℤ) :
    (k.forked c out err child).children[pid]? = if c.fork = some pid then some child else k.children[pid]? := by
  rw [Kernel.forked_children]
  cases c.fork with
  | none => rfl
  | some pid' => simp [Std.ExtTreeMap.getElem?_insert]

end Scinit
