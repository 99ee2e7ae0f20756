/-
# What the children write, and what is read of it

In a round of the event loop the descriptors are reported before the children
are reaped, and read after. So when the loop ends, what a child wrote is lost if
it was not reported yet when it exited, or was more than one `read` takes
(`output_read_iff`).

Key definitions: `PipeMove`, `Drained`, `LastRound`.
Key theorems: `pipes_step`, `fifo`, `unread_step`, `last_round`, `output_read_iff`.
-/
import Scinit.Exit

namespace Scinit

open Transition

variable {H : Host} {progs : List Program} {base : Objs} {tr pre post : List (Sys × Label)} {s s' t : Sys}
  {l : Label} {fd : ℤ}

/-! ### One pipe in one step -/

/-- What a step may do to a pipe: nothing to its bytes, a child writes to it, or it is read. -/
inductive PipeMove (s : Sys) (l : Label) (fd : ℤ) (move : Pipe → Pipe) : Prop
  | kept : (∀ q, (move q).written = q.written ∧ (move q).got = q.got) → PipeMove s l fd move
  | wrote {pid : ℤ} {c : Child} {bytes : Text} : s.kernel.children[pid]? = some c →
      (∀ q, move q = { q with written := q.written ++ bytes }) → PipeMove s l fd move
  | read {c : EventCalls} {e : Event} {batch : List Event} : l = .event c → s.pc = .handling (e :: batch) →
      e.fd = fd → fd ≠ s.handler.signalFd → e.epollin = true → s.kernel.MayAnswer fd c →
      (∀ q, move q = { q with got := q.got ++ q.unread.take (c.nread.getD 0) }) → PipeMove s l fd move

/-- A pipe is new and empty, or moved. -/
def PipeStep (s : Sys) (l : Label) (fd : ℤ) (after : Option Pipe) : Prop :=
  (s.kernel.pipes[fd]? = none ∧ ∀ q ∈ after, q.written = [] ∧ q.got = []) ∨
    ∃ move, PipeMove s l fd move ∧ after = s.kernel.pipes[fd]?.map move

theorem pipeStep_same : PipeStep s l fd s.kernel.pipes[fd]? :=
  Or.inr ⟨id, .kept fun _ => ⟨rfl, rfl⟩, by rw [Option.map_id, id]⟩

/-- The pipes of the kernel after a fork. -/
theorem Kernel.forked_pipes_of_ne {k : Kernel} {c : StartCalls} {out err : ℤ × ℤ} {child : Child}
    (ho : fd ≠ out.1) (he : fd ≠ err.1) : (k.forked c out err child).pipes[fd]? = k.pipes[fd]? := by
  unfold Kernel.forked
  rw [closeWriteEnd_pipes, closeWriteEnd_pipes]
  cases c.fork <;>
    simp [Kernel.openPair, Kernel.addChild, Std.ExtTreeMap.getElem?_insert, Ne.symm ho, Ne.symm he]

/-- The pipes after an attempt that got to its fork. -/
theorem pipeStep_forked (hf : Fds s) {c : StartCalls} {out err : ℤ × ℤ} (hk : s.kernel.MayStart c)
    (hout : c.out = some out) (herr : c.err = some err) (child : Child) :
    PipeStep s l fd (s.kernel.forked c out err child).pipes[fd]? := by
  by_cases hfd : fd ∈ s.kernel.fds
  · have ho : fd ≠ out.1 := fun h => (hk.1 out hout).2.2.1 (h ▸ hfd)
    have he : fd ≠ err.1 := fun h => (hk.2.1 err herr).2.2.1 (h ▸ hfd)
    rw [Kernel.forked_pipes_of_ne ho he]
    exact pipeStep_same
  · have hnone := hf.pipes_none hfd
    refine Or.inl ⟨hnone, fun q hq => ?_⟩
    rcases Kernel.forked_pipes hq with ⟨-, h⟩ | ⟨-, -, h⟩
    · exact h
    · rw [hnone] at h
      cases h

/-- The pipes after something outside scinit. -/
theorem pipeStep_act {a : Act} {k : Kernel} (h : s.kernel.act a = some k) : PipeStep s l fd k.pipes[fd]? := by
  -- one pipe is replaced by what became of it
  have hinsert : ∀ (move : Pipe → Pipe) {fd' : ℤ} {q₀ : Pipe}, s.kernel.pipes[fd']? = some q₀ →
      PipeMove s l fd' move → PipeStep s l fd (s.kernel.pipes.insert fd' (move q₀))[fd]? := by
    intro move fd' q₀ hq hmove
    by_cases hfd : fd' = fd
    · subst hfd
      refine Or.inr ⟨move, hmove, ?_⟩
      rw [Std.ExtTreeMap.getElem?_insert_self, hq, Option.map_some]
    · have hother : (s.kernel.pipes.insert fd' (move q₀))[fd]? = s.kernel.pipes[fd]? := by
        simp [Std.ExtTreeMap.getElem?_insert, hfd]
      rw [hother]
      exact pipeStep_same
  cases a with
  | write pid stream bytes =>
    simp only [Kernel.act] at h
    split at h
    · cases h
    · rename_i c hc
      split at h
      · cases h
      · rename_i q hq
        simp only [Option.ite_none_right_eq_some, Option.some.injEq] at h
        obtain ⟨-, rfl⟩ := h
        exact hinsert (fun q => { q with written := q.written ++ bytes }) hq (.wrote hc fun _ => rfl)
  | exit pid status =>
    simp only [Kernel.act] at h
    split at h
    · cases h
    · simp only [Option.ite_none_right_eq_some, Option.some.injEq] at h
      obtain ⟨-, rfl⟩ := h
      obtain ⟨p, hp⟩ := Kernel.enqueue_eq { s.kernel with children := s.kernel.children.insert pid _ } sigChld
      rw [hp]
      exact pipeStep_same
  | hangup fd' =>
    simp only [Kernel.act] at h
    split at h
    · cases h
    · rename_i q hq
      cases h
      exact hinsert (fun q => { q with writers := false }) hq (.kept fun _ => ⟨rfl, rfl⟩)

/-- **A pipe in a step.** -/
theorem pipes_step (hf : Fds s) (he : Effect H s l s') (fd : ℤ) : PipeStep s l fd s'.kernel.pipes[fd]? := by
  cases he with
  | setup | setupFailed | notify | skipped | started | epollWait | reap | reapUnknown | reaped | hungUp
  | eventFailed | exitTest => exact pipeStep_same
  | threw _ _ _ _ hopen =>
    by_cases hfd : fd ∈ s.kernel.fds
    · show PipeStep s _ fd _
      dsimp only
      rw [hopen.pipes fd hfd]
      exact pipeStep_same
    · have hnone := hf.pipes_none hfd
      refine Or.inl ⟨hnone, fun q hq => ?_⟩
      rcases hopen.fresh fd q hq with h | ⟨-, -, rfl⟩
      · rw [hnone] at h
        cases h
      · exact ⟨rfl, rfl⟩
  | unregistered _ _ _ _ hk hout herr => exact pipeStep_forked hf hk hout herr _
  | forked _ _ _ _ hk hout herr => exact pipeStep_forked hf hk hout herr _
  | @signalled c e batch n =>
    obtain ⟨k, q, hk, heq⟩ := signalReceived_eq n
      { s with kernel := { s.kernel with pending := s.kernel.pending.erase n } }
    obtain ⟨children, rfl⟩ := hk.same
    rw [heq]
    exact pipeStep_same
  | @output c e batch id p type lines hpc hsig hin hmay =>
    by_cases hfd : e.fd = fd
    · subst hfd
      refine Or.inr ⟨fun q => { q with got := q.got ++ q.unread.take (c.nread.getD 0) },
        .read rfl hpc rfl hsig hin hmay fun _ => rfl, ?_⟩
      simp [Kernel.readBytes]
    · refine Or.inr ⟨fun q => q, .kept fun _ => ⟨rfl, rfl⟩, ?_⟩
      simp [Kernel.readBytes, Std.ExtTreeMap.getElem?_modify, hfd]
  | act _ hact => exact pipeStep_act hact
  | signal =>
    rw [deliver_pipes]
    exact pipeStep_same

/-! ### A pipe is a FIFO -/

/-- What was read of a pipe is a prefix of what was written to it. -/
theorem fifo (h : Runs H progs tr s) {q : Pipe}
    (hq : s.kernel.pipes[fd]? = some q) : q.got <+: q.written := by
  refine run_inv_of (I := fun s => ∀ q, s.kernel.pipes[fd]? = some q → q.got <+: q.written)
    (C := fun _ _ => True) (fun q hq => ?_) (fun s l s' _ hf hI _ he q hq => ?_) h (fun _ _ => trivial) q hq
  · simp [boot_kernel] at hq
  · rcases pipes_step hf he fd with ⟨-, hnew⟩ | ⟨move, hmove, hafter⟩
    · rw [(hnew q hq).2]
      exact List.nil_prefix
    · rw [hq] at hafter
      obtain ⟨q₀, hq₀, rfl⟩ := Option.map_eq_some_iff.mp hafter.symm
      have hpre := hI q₀ hq₀
      cases hmove with
      | kept hkept =>
        rw [(hkept q₀).1, (hkept q₀).2]
        exact hpre
      | wrote _ hwrote =>
        rw [hwrote q₀]
        exact hpre.trans (List.prefix_append _ _)
      | read _ _ _ _ _ _ hread =>
        rw [hread q₀]
        obtain ⟨rest, hrest⟩ := hpre
        have hunread : q₀.unread = rest := by
          unfold Pipe.unread
          rw [← hrest, List.drop_left]
        show q₀.got ++ q₀.unread.take _ <+: q₀.written
        rw [hunread, ← hrest]
        exact (List.prefix_append_right_inj _).mpr (List.take_prefix _ _)

/-- Nothing is unread exactly if all that was written was read. -/
theorem unread_eq_nil_iff (h : Runs H progs tr s) :
    s.kernel.unread fd = [] ↔ ∀ q, s.kernel.pipes[fd]? = some q → q.got = q.written := by
  unfold Kernel.unread
  cases hq : s.kernel.pipes[fd]? with
  | none => simp
  | some q =>
    simp only [Option.map_some, Option.getD_some, Option.some.injEq, forall_eq', Pipe.unread,
      List.drop_eq_nil_iff]
    exact ⟨fun hlen => (fifo h hq).eq_of_length_le hlen, fun he => by rw [he]⟩

/-! ### Reading -/

/-- The descriptor was reported readable, and its one `read` returns all that is there. -/
def Drained (s : Sys) (l : Label) (fd : ℤ) : Prop :=
  ∃ c e batch, l = .event c ∧ s.pc = .handling (e :: batch) ∧ e.fd = fd ∧ fd ≠ s.handler.signalFd ∧
    e.epollin = true ∧ c.nread = some (s.kernel.unread fd).length

/-- The bytes that are left of a pipe after a `read`. -/
theorem unread_readBytes (k : Kernel) (fd : ℤ) (n : ℕ) :
    (k.readBytes fd n).unread fd = (k.unread fd).drop n := by
  unfold Kernel.unread Kernel.readBytes
  simp only [Std.ExtTreeMap.getElem?_modify_self]
  cases k.pipes[fd]? with
  | none => simp
  | some q =>
    simp only [Option.map_some, Option.getD_some, Pipe.unread, List.length_append, List.length_take,
      List.length_drop, List.drop_drop]
    by_cases hn : n ≤ q.written.length - q.got.length
    · rw [min_eq_left hn]
    · rw [min_eq_right (by omega), List.drop_eq_nil_of_le (by omega), List.drop_eq_nil_of_le (by omega)]

/-- Without children, a step leaves what is unread of a pipe, or reads of it. -/
theorem unread_cases (hf : Fds s) (he : Effect H s l s') (hno : ∀ pid : ℤ, s.kernel.children[pid]? = none)
    (fd : ℤ) : s'.kernel.unread fd = s.kernel.unread fd ∨
      ∃ c e batch, l = .event c ∧ s.pc = .handling (e :: batch) ∧ e.fd = fd ∧ fd ≠ s.handler.signalFd ∧
        e.epollin = true ∧ s.kernel.MayAnswer fd c ∧
        s'.kernel.unread fd = (s.kernel.unread fd).drop (c.nread.getD 0) := by
  rcases pipes_step hf he fd with ⟨hnone, hnew⟩ | ⟨move, hmove, hafter⟩
  · left
    unfold Kernel.unread
    rw [hnone]
    cases hq : s'.kernel.pipes[fd]? with
    | none => rfl
    | some q =>
      have hq := hnew q hq
      simp [Pipe.unread, hq.1]
  · cases hmove with
    | kept hkept =>
      left
      unfold Kernel.unread
      rw [hafter, Option.map_map]
      have hsame : Pipe.unread ∘ move = Pipe.unread := funext fun q => by
        simp only [Function.comp_apply, Pipe.unread, (hkept q).1, (hkept q).2]
      rw [hsame]
    | wrote hc =>
      rw [hno] at hc
      cases hc
    | @read c e batch hl hpc hfd hsig hin hmay hread =>
      refine Or.inr ⟨c, e, batch, hl, hpc, hfd, hsig, hin, hmay, ?_⟩
      rw [← unread_readBytes]
      unfold Kernel.unread Kernel.readBytes
      rw [hafter, Std.ExtTreeMap.getElem?_modify_self, funext hread]

/-- A step that drains a pipe leaves nothing unread. -/
theorem unread_of_drained (he : Effect H s l s') (ht : s'.pc.isThrown = false) (hd : Drained s l fd) :
    s'.kernel.unread fd = [] := by
  obtain ⟨c, e, batch, rfl, hpc, rfl, hsig, hin, hn⟩ := hd
  cases he with
  | signalled hpc' hsig' =>
    rw [hpc] at hpc'
    cases hpc'
    exact absurd hsig' hsig
  | output hpc' =>
    rw [hpc] at hpc'
    cases hpc'
    show (s.kernel.readBytes e.fd (c.nread.getD 0)).unread e.fd = []
    rw [unread_readBytes, hn, Option.getD_some, List.drop_length]
  | hungUp hpc' _ hin' =>
    rw [hpc] at hpc'
    cases hpc'
    rw [hin] at hin'
    cases hin'
  | eventFailed => cases ht

/-- **Without children**, a step empties a pipe exactly if it drains it. -/
theorem unread_step (hf : Fds s) (he : Effect H s l s') (ht : s'.pc.isThrown = false)
    (hno : ∀ pid : ℤ, s.kernel.children[pid]? = none) :
    s'.kernel.unread fd = [] ↔ s.kernel.unread fd = [] ∨ Drained s l fd := by
  constructor
  · intro hempty
    rcases unread_cases hf he hno fd with hsame | ⟨c, e, batch, hl, hpc, hfd, hsig, hin, hmay, hdrop⟩
    · exact Or.inl (hsame ▸ hempty)
    · by_cases hnil : s.kernel.unread fd = []
      · exact Or.inl hnil
      · right
        refine ⟨c, e, batch, hl, hpc, hfd, hsig, hin, ?_⟩
        rw [hdrop, List.drop_eq_nil_iff] at hempty
        have hpos := List.length_pos_iff.mpr hnil
        cases hn : c.nread with
        | none =>
          rw [hn, Option.getD_none] at hempty
          omega
        | some n =>
          rw [hn, Option.getD_some] at hempty
          have hle := (hmay.2 n hn).2
          rw [le_antisymm hle hempty]
  · rintro (hempty | hd)
    · rcases unread_cases hf he hno fd with hsame | ⟨c, e, batch, -, -, -, -, -, -, hdrop⟩
      · rw [hsame, hempty]
      · rw [hdrop, hempty, List.drop_nil]
    · exact unread_of_drained he ht hd

/-! ### The last round -/

/-- After the children of a round are reaped, until the next round. -/
def Pc.inRound : Pc → Bool
  | .handling _ | .notify .tail | .starting .tail _ | .returned _ => true
  | _ => false

/-- A call is in a round from its notifications to its end, or never. -/
theorem inRound_notify (site : Site) (todo : List Ref) :
    (Pc.notify site).inRound = (Pc.starting site todo).inRound := by cases site <;> rfl

theorem inRound_starting (site : Site) (todo todo' : List Ref) :
    (Pc.starting site todo).inRound = (Pc.starting site todo').inRound := by cases site <;> rfl

/-- A round begins when its children are reaped, and the count only grows in it. -/
theorem inRound_step (he : Effect H s l s') (hr : s'.pc.inRound = true) :
    l = .reaped ∨ s.pc.inRound = true ∧ s.handler.numberOfRunningProcs ≤ s'.handler.numberOfRunningProcs := by
  cases he with
  | setup | setupFailed | unregistered | epollWait | eventFailed => cases hr
  | reaped => exact Or.inl rfl
  | notify hpc =>
    rw [hpc, inRound_notify]
    exact Or.inr ⟨hr, le_rfl⟩
  | @skipped c site ref todo hpc =>
    rw [hpc, inRound_starting site _ todo]
    exact Or.inr ⟨hr, le_rfl⟩
  | @threw c site ref todo p out err b b' k pc hpc _ _ _ _ hpc' =>
    rcases hpc' with rfl | ⟨e, rfl⟩
    · rw [hpc, inRound_starting site _ todo]
      exact Or.inr ⟨hr, le_rfl⟩
    · cases hr
  | @forked c site ref todo p out err b b' environment hpc =>
    rw [hpc, inRound_starting site _ todo]
    refine Or.inr ⟨hr, ?_⟩
    show s.handler.numberOfRunningProcs ≤ s.handler.numberOfRunningProcs + 1
    omega
  | @started site hpc =>
    cases site with
    | first | head => cases hr
    | tail => exact Or.inr ⟨by rw [hpc]; rfl, le_rfl⟩
  | reap hpc =>
    have hr : s.pc.inRound = true := hr
    rw [hpc] at hr
    cases hr
  | reapUnknown hpc =>
    rw [hpc] at hr
    cases hr
  | signalled hpc => exact Or.inr ⟨by rw [hpc]; rfl, (signalReceived_numberOfRunningProcs _ _).ge⟩
  | output hpc | hungUp hpc | exitTest hpc => exact Or.inr ⟨by rw [hpc]; rfl, le_rfl⟩
  | act => exact Or.inr ⟨hr, le_rfl⟩
  | signal =>
    rw [pc_of_deliver fun m hm => by rw [hm] at hr; cases hr] at hr
    rw [deliver_handler]
    exact Or.inr ⟨hr, le_rfl⟩

/-- The last round of a run: the state at the end of its reaping, and the steps after it. -/
def LastRound (tr : List (Sys × Label)) (t : Sys) (post : List (Sys × Label)) : Prop :=
  ∃ pre, tr = pre ++ (t, .reaped) :: post ∧ ∀ e ∈ post, e.2 ≠ .reaped

/-- A run that is in a round began it, and counted no more children in it than it does now. -/
theorem last_round (h : Runs H progs tr s) (hr : s.pc.inRound = true) : ∃ t post, LastRound tr t post ∧
    ∀ e ∈ post, e.1.handler.numberOfRunningProcs ≤ s.handler.numberOfRunningProcs := by
  induction h with
  | refl =>
    rw [boot_pc] at hr
    cases hr
  | @snoc tr s s' l h hs ih =>
    obtain ⟨-, -, he⟩ := run_effect h hs
    by_cases hl : l = .reaped
    · subst hl
      exact ⟨s, [], ⟨tr, rfl, List.forall_mem_nil _⟩, List.forall_mem_nil _⟩
    · obtain ⟨hr', hle⟩ := (inRound_step he hr).resolve_left hl
      obtain ⟨t, post, ⟨pre, rfl, hpost⟩, hcount⟩ := ih hr'
      refine ⟨t, post ++ [(s, l)], ⟨pre, by simp, ?_⟩, ?_⟩
      · rw [List.forall_mem_append, List.forall_mem_singleton]
        exact ⟨hpost, hl⟩
      · rw [List.forall_mem_append, List.forall_mem_singleton]
        exact ⟨fun e he => (hcount e he).trans hle, hle⟩

/-- What is left unread by steps that have no children. -/
theorem unread_iff (h : Runs H progs pre t) (hrun : Run (step H) t post s) (ht : s.pc.isThrown = false)
    (hno : ∀ e ∈ post, ∀ pid : ℤ, e.1.kernel.children[pid]? = none) :
    s.kernel.unread fd = [] ↔ t.kernel.unread fd = [] ∨ ∃ e ∈ post, Drained e.1 e.2 fd := by
  induction hrun with
  | refl => simp
  | @snoc post s s' l hrun hs ih =>
    rw [List.forall_mem_append, List.forall_mem_singleton] at hno
    obtain ⟨-, hf, he⟩ := run_effect (h.trans hrun) hs
    rw [unread_step hf he ht hno.2, ih (not_thrown_of_step hs) hno.1, or_assoc]
    refine or_congr_right ?_
    simp only [List.mem_append, List.mem_singleton, or_and_right, exists_or, exists_eq_left]

/-- **What the children wrote has been read** when the event loop returns 0,
exactly if every pipe that had something unread when the last children were
reaped was drained in that round: it had been reported readable before, and one
`read` returned it all. -/
theorem output_read_iff (h : Runs H progs tr s) (hpc : s.pc = .returned 0) :
    ∃ t post, LastRound tr t post ∧
      ((∀ (fd : ℤ) (q : Pipe), s.kernel.pipes[fd]? = some q → q.got = q.written) ↔
        ∀ fd : ℤ, t.kernel.unread fd ≠ [] → ∃ e ∈ post, Drained e.1 e.2 fd) := by
  have ht : s.pc.isThrown = false := by rw [hpc]; rfl
  obtain ⟨-, hnum, -⟩ := returned_cases h hpc
  obtain ⟨t, post, ⟨pre, rfl, hpost⟩, hcount⟩ := last_round h (by rw [hpc]; rfl)
  refine ⟨t, post, ⟨pre, rfl, hpost⟩, ?_⟩
  obtain ⟨hpre, t', hs, hrun⟩ := h.split
  -- nothing runs in the last round
  have hno : ∀ e ∈ post, ∀ pid : ℤ, e.1.kernel.children[pid]? = none := by
    intro e he pid
    obtain ⟨pre', post', u, rfl, hrun', hs', -⟩ := hrun.step_of_mem (t := e.1) (l := e.2) he
    have hsize := size_le_counter ((hpre.snoc hs).trans hrun') (not_thrown_of_step hs')
    have hle := hcount e he
    rw [Std.ExtTreeMap.eq_empty_iff_size_eq_zero.mpr (show e.1.kernel.children.size = 0 by omega)]
    rfl
  -- the kernel does not change when reaping ends
  have hsame : t'.kernel = t.kernel := by
    obtain ⟨-, -, he⟩ := run_effect hpre hs
    cases he with
    | reaped => rfl
  have hiff : ∀ fd : ℤ, s.kernel.unread fd = [] ↔
      t.kernel.unread fd = [] ∨ ∃ e ∈ post, Drained e.1 e.2 fd := fun fd => by
    rw [unread_iff (hpre.snoc hs) hrun ht hno, hsame]
  constructor
  · intro hread fd hne
    exact ((hiff fd).mp ((unread_eq_nil_iff h).mpr (hread fd))).resolve_left hne
  · intro hall fd
    refine (unread_eq_nil_iff h).mp ((hiff fd).mpr ?_)
    by_cases hne : t.kernel.unread fd = []
    · exact Or.inl hne
    · exact Or.inr (hall fd hne)

/-- A program writes a line, which is reported and read while it exits. -/
def lineRead : List Label :=
  [.setup setupOk, .notify, .start (startOk 10 100), .started, .notify, .start (startOk 20 101), .started,
    .act (.write 100 .stdout ['x']), .epollWait [⟨10, true, false⟩], .act (.exit 100 0), .reap 100 0, .reaped,
    .event { signal := none, nread := some 1, epollDel := true }, .exitTest, .notify,
    .start (startOk 20 101), .started]

theorem lineRead_possible :
    (exec (step bareHost) (boot bareHost [plain 'p' "simple" [] []]) lineRead).isSome = true := by decide

theorem output_read_iff_lineRead : ∃ t post,
    LastRound (trace (step bareHost) (boot bareHost [plain 'p' "simple" [] []]) lineRead) t post ∧
      ∀ fd : ℤ, t.kernel.unread fd ≠ [] → ∃ e ∈ post, Drained e.1 e.2 fd := by
  obtain ⟨t, post, hlast, hiff⟩ := output_read_iff (Run.of_isSome lineRead_possible) (by decide)
  have hread : ∀ e ∈ ((exec (step bareHost) (boot bareHost [plain 'p' "simple" [] []]) lineRead).get
      lineRead_possible).kernel.pipes.toList, e.2.got = e.2.written := by decide
  refine ⟨t, post, hlast, hiff.mp fun fd q hq => ?_⟩
  exact hread (fd, q) (Std.ExtTreeMap.mem_toList_iff_getElem?_eq_some.mpr hq)

/-- A program writes a line and exits after `epoll_wait` returned. -/
def lineLost : List Label :=
  [.setup setupOk, .notify, .start (startOk 10 100), .started, .notify, .start (startOk 20 101), .started,
    .epollWait [], .act (.write 100 .stdout ['x']), .act (.exit 100 0), .reap 100 0, .reaped, .exitTest, .notify,
    .start (startOk 20 101), .started]

theorem lineLost_possible :
    (exec (step bareHost) (boot bareHost [plain 'p' "simple" [] []]) lineLost).isSome = true := by decide

theorem output_lost : ¬ ∀ (H : Host) (progs : List Program) (tr : List (Sys × Label)) (s : Sys),
    Runs H progs tr s → s.pc = .returned 0 →
      ∀ (fd : ℤ) (q : Pipe), s.kernel.pipes[fd]? = some q → q.got = q.written := by
  intro hall
  have hend := hall _ _ _ _ (Run.of_isSome lineLost_possible) (by decide) 10 ⟨['x'], [], true⟩ (by decide)
  cases hend

end Scinit
